import InterfaceSchema.FieldMap

/-!
# Interface trees

What a declaration says: named members, each a bare type or an object of its own, and index
signatures. The order of members and of signatures counts.

## Main definitions

* `Interface`, `TypeExpr`, `IndexSignature` — the trees.
* `Interface.nested?`, `Interface.member?` — lookup by name.
-/

namespace InterfaceSchema

mutual

/-- A declared interface, or an object nested in one. -/
structure Interface where
  /-- The declared name; of a nested object, the name of the member it is the type of. -/
  name : String
  /-- The members in order. -/
  members : FieldMap TypeExpr
  /-- The index signatures of this level in order. -/
  signatures : List IndexSignature

/-- The type of a member. -/
inductive TypeExpr where
  /-- A type given by one word. -/
  | named (token : String)
  /-- A type given by its members. -/
  | object (inner : Interface)

/-- A rule for all keys of a type. -/
structure IndexSignature where
  key : String
  value : TypeExpr

end

/-- The interface of a given name without members. -/
def Interface.ofName (name : String) : Interface := ⟨name, ∅, []⟩

instance : Inhabited Interface := ⟨.ofName ""⟩

/-- The word of a type given by one. -/
def TypeExpr.token? : TypeExpr → Option String
  | .named token => some token
  | .object _ => none

/-- The object of a type given by its members. -/
def TypeExpr.object? : TypeExpr → Option Interface
  | .named _ => none
  | .object inner => some inner

namespace Interface

/-- The type of a member. -/
def member? (i : Interface) (name : String) : Option TypeExpr :=
  i.members.get? name

/-- The object nested under a name. -/
def nested? (i : Interface) (name : String) : Option Interface :=
  (i.member? name).bind TypeExpr.object?

/-- The object reached by following names downwards. -/
def descend? (i : Interface) : List String → Option Interface
  | [] => some i
  | name :: rest => (i.nested? name).bind (·.descend? rest)

/-! ## Equality -/

end Interface

mutual

/-- Whether two interfaces agree in everything, order included. -/
def Interface.same : Interface → Interface → Bool
  | ⟨n, ⟨ms⟩, ss⟩, ⟨n', ⟨ms'⟩, ss'⟩ => n == n' && sameMembers ms ms' && sameSignatures ss ss'

/-- Whether two types agree. -/
def TypeExpr.same : TypeExpr → TypeExpr → Bool
  | .named t, .named t' => t == t'
  | .object i, .object i' => i.same i'
  | _, _ => false

/-- Whether two lists of members agree. -/
def sameMembers : List (String × TypeExpr) → List (String × TypeExpr) → Bool
  | [], [] => true
  | (k, t) :: rest, (k', t') :: rest' => k == k' && t.same t' && sameMembers rest rest'
  | _, _ => false

/-- Whether two index signatures agree. -/
def IndexSignature.same : IndexSignature → IndexSignature → Bool
  | ⟨k, t⟩, ⟨k', t'⟩ => k == k' && t.same t'

/-- Whether two lists of index signatures agree. -/
def sameSignatures : List IndexSignature → List IndexSignature → Bool
  | [], [] => true
  | s :: rest, s' :: rest' => s.same s' && sameSignatures rest rest'
  | _, _ => false

end

mutual

theorem Interface.same_iff : ∀ i j : Interface, i.same j = true ↔ i = j
  | ⟨n, ⟨ms⟩, ss⟩, ⟨n', ⟨ms'⟩, ss'⟩ => by
    simp [Interface.same, sameMembers_iff ms ms', sameSignatures_iff ss ss', and_assoc]

theorem TypeExpr.same_iff : ∀ s t : TypeExpr, s.same t = true ↔ s = t
  | .named _, .named _ => by simp [TypeExpr.same]
  | .object i, .object j => by simp [TypeExpr.same, Interface.same_iff i j]
  | .named _, .object _ => by simp [TypeExpr.same]
  | .object _, .named _ => by simp [TypeExpr.same]

theorem sameMembers_iff : ∀ l m : List (String × TypeExpr), sameMembers l m = true ↔ l = m
  | [], [] => by simp [sameMembers]
  | [], _ :: _ => by simp [sameMembers]
  | _ :: _, [] => by simp [sameMembers]
  | (k, t) :: rest, (k', t') :: rest' => by
    simp [sameMembers, TypeExpr.same_iff t t', sameMembers_iff rest rest']

theorem IndexSignature.same_iff : ∀ s t : IndexSignature, s.same t = true ↔ s = t
  | ⟨k, t⟩, ⟨k', t'⟩ => by simp [IndexSignature.same, TypeExpr.same_iff t t']

theorem sameSignatures_iff : ∀ l m : List IndexSignature, sameSignatures l m = true ↔ l = m
  | [], [] => by simp [sameSignatures]
  | [], _ :: _ => by simp [sameSignatures]
  | _ :: _, [] => by simp [sameSignatures]
  | s :: rest, s' :: rest' => by
    simp [sameSignatures, IndexSignature.same_iff s s', sameSignatures_iff rest rest']

end

instance : DecidableEq Interface := fun i j => decidable_of_iff _ (Interface.same_iff i j)

instance : DecidableEq TypeExpr := fun s t => decidable_of_iff _ (TypeExpr.same_iff s t)

instance : DecidableEq IndexSignature := fun s t => decidable_of_iff _ (IndexSignature.same_iff s t)

end InterfaceSchema
