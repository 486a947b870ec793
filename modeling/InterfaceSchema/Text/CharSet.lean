/-!
# Sets of characters

A set of code points, given by the places where membership changes.
-/

namespace InterfaceSchema

/-- The code points at which a set begins or ends, in increasing order: the first range runs from
the first entry up to but without the second, and so on. -/
structure CharSet where
  bounds : List Nat

/-- Whether the bounds passed on the way to `n` are odd in number, counting from `inside`. -/
def CharSet.crosses (inside : Bool) (n : Nat) : List Nat → Bool
  | [] => inside
  | bound :: rest => if n < bound then inside else crosses (!inside) n rest

/-- Whether a character belongs to the set. -/
def CharSet.contains (set : CharSet) (c : Char) : Bool :=
  crosses false c.toNat set.bounds

end InterfaceSchema
