import InterfaceSchema.Grammar
import InterfaceSchema.Interface.Basic

/-!
# Levels of an interface

The levels of an interface are itself and the objects nested in it through members, at any depth.
Objects that are values of index signatures are not among them: they are not levels of a
declaration.

## Main definitions

* `Interface.levels` — all levels, the outermost first.
* `Interface.texts` — the names and words written at one level.
* `Interface.WrittenIn` — levels written in characters of a kind.
* `Interface.Readable` — what a level has to be like to be the result of reading.
-/

namespace InterfaceSchema

mutual

/-- An interface and the objects nested in it through members. -/
def Interface.levels : Interface → List Interface
  | ⟨name, ⟨members⟩, signatures⟩ => ⟨name, ⟨members⟩, signatures⟩ :: memberLevels members

/-- The levels of the object that a type is. -/
def TypeExpr.levels : TypeExpr → List Interface
  | .named _ => []
  | .object inner => inner.levels

/-- The levels below some members. -/
def memberLevels : List (String × TypeExpr) → List Interface
  | [] => []
  | (_, type) :: rest => type.levels ++ memberLevels rest

end

/-- The names of a level's members, the words that are types of members, and the words of index
signatures. -/
def Interface.texts (i : Interface) : List String :=
  i.members.entries.flatMap (fun e => e.1 :: e.2.token?.toList)
    ++ i.signatures.flatMap fun s => s.key :: s.value.token?.toList

/-- A text in characters of a kind. -/
def Written (P : Char → Prop) (s : String) : Prop :=
  ∀ c ∈ s.toList, P c

/-- A level written in characters of a kind. The index opener is written where there is an index
signature. -/
structure Interface.WrittenIn (g : Grammar) (P : Char → Prop) (i : Interface) : Prop where
  texts : ∀ s ∈ i.texts, Written P s
  opener : i.signatures ≠ [] → Written P g.indexOpener

/-- Whether the object that is the type of a member, if it is one, has the name of the member. -/
def NamesObject (e : String × TypeExpr) : Prop :=
  ∀ inner ∈ e.2.object?, inner.name = e.1

instance (e : String × TypeExpr) : Decidable (NamesObject e) :=
  inferInstanceAs (Decidable (∀ inner ∈ e.2.object?, inner.name = e.1))

/-- Whether every object nested in an interface through members has the name of its member. -/
def Interface.Named (i : Interface) : Prop :=
  ∀ level ∈ i.levels, ∀ e ∈ level.members.entries, NamesObject e

instance (i : Interface) : Decidable i.Named :=
  inferInstanceAs (Decidable (∀ level ∈ i.levels, ∀ e ∈ level.members.entries, NamesObject e))

/-- What a level has to be like to be the result of reading: its members have distinct names that
are neither empty nor the index opener, nested objects are named by their members, and the values
of index signatures are words. -/
structure Interface.Readable (g : Grammar) (i : Interface) : Prop where
  distinct : i.members.Distinct
  keys : ∀ key ∈ i.members.keys, key ≠ "" ∧ key ≠ g.indexOpener
  named : ∀ e ∈ i.members.entries, NamesObject e
  words : ∀ s ∈ i.signatures, s.value.object? = none

namespace Interface

theorem readable_iff {g : Grammar} {i : Interface} : i.Readable g ↔
    i.members.keys.Nodup ∧ (∀ key ∈ i.members.keys, key ≠ "" ∧ key ≠ g.indexOpener) ∧
      (∀ e ∈ i.members.entries, NamesObject e) ∧ ∀ s ∈ i.signatures, s.value.object? = none :=
  ⟨fun ⟨hd, hk, hn, hw⟩ => ⟨hd, hk, hn, hw⟩, fun ⟨hd, hk, hn, hw⟩ => ⟨hd, hk, hn, hw⟩⟩

instance (g : Grammar) (i : Interface) : Decidable (i.Readable g) :=
  decidable_of_iff _ readable_iff.symm

theorem levels_eq (i : Interface) : i.levels = i :: memberLevels i.members.entries := by
  obtain ⟨name, ⟨members⟩, signatures⟩ := i
  rfl

theorem mem_levels_self (i : Interface) : i ∈ i.levels := by
  rw [levels_eq]
  exact List.mem_cons_self

end Interface

/-- What holds of all levels below members holds of all levels below each of them. -/
theorem forall_mem_memberLevels_cons {P : Interface → Prop} {key : String} {type : TypeExpr}
    {rest : List (String × TypeExpr)} (h : ∀ level ∈ memberLevels ((key, type) :: rest), P level) :
    (∀ level ∈ type.levels, P level) ∧ ∀ level ∈ memberLevels rest, P level := by
  simpa [memberLevels, or_imp, forall_and] using h

end InterfaceSchema
