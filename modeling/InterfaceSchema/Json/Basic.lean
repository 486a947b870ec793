import InterfaceSchema.Decimal.Binary64
import InterfaceSchema.Text.Utf8

/-!
# JSON values

Values as they are written: members keep their order, and a key may occur more than once. Two
values that differ only in the order of members become equal when their keys are sorted.

## Main definitions

* `Json` — JSON values.
* `Json.sortKeys` — the same value with the members of every object in the order of their keys.
-/

namespace InterfaceSchema

/-- A JSON number: an integer, or a double precision number with its sign. -/
inductive Number where
  | integer (n : Int)
  | float (negative : Bool) (magnitude : Binary64)
  deriving DecidableEq, Repr

/-- A JSON value. -/
inductive Json where
  | null
  | bool (b : Bool)
  | number (n : Number)
  | string (s : String)
  | array (items : List Json)
  | object (members : List (String × Json))
  deriving Inhabited, Repr

namespace Json

mutual

/-- Sort the members of every object by the bytes of their keys. -/
def sortKeys : Json → Json
  | .array items => .array (sortItems items)
  | .object members =>
    .object ((sortMembers members).mergeSort fun a b => Utf8.le a.1 b.1)
  | v => v

/-- Sort the keys inside every item. -/
def sortItems : List Json → List Json
  | [] => []
  | v :: rest => v.sortKeys :: sortItems rest

/-- Sort the keys inside every member. -/
def sortMembers : List (String × Json) → List (String × Json)
  | [] => []
  | (k, v) :: rest => (k, v.sortKeys) :: sortMembers rest

end

/-- The first value stored under a key. -/
def member? (key : String) : List (String × Json) → Option Json
  | [] => none
  | (k, v) :: rest => if k = key then some v else member? key rest

end Json

end InterfaceSchema
