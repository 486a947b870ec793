import InterfaceSchema.Proofs.JsonReading
import InterfaceSchema.Proofs.KeyOrder

/-!
# Values up to the order of keys

Two texts tell the same if they are read as values that differ only in the order of members. That
means something where no object has a key twice, and there sorting keys changes nothing else.

## Main definitions

* `Json.KeysDistinct` — values in which no object has a key twice.
* `Json.Same` — values that differ in the order of members only.
* `Json.nesting` — how many containers stand inside one another.
* `Json.ReadsAs` — bytes that are read as a value, up to the order of keys.
-/

namespace InterfaceSchema.Json

/-! ## Distinct keys -/

/-- Values in which no object has a key twice. -/
inductive KeysDistinct : Json → Prop where
  | null : KeysDistinct .null
  | bool (b : Bool) : KeysDistinct (.bool b)
  | number (n : Number) : KeysDistinct (.number n)
  | string (s : String) : KeysDistinct (.string s)
  | array {items : List Json} (h : ∀ v ∈ items, KeysDistinct v) : KeysDistinct (.array items)
  | object {members : List (String × Json)} (hkeys : (keys members).Nodup)
      (h : ∀ m ∈ members, KeysDistinct m.2) : KeysDistinct (.object members)

/-- Values that differ in the order of members only: arrays have the same items in order, objects
have the same keys and the same values under them. -/
inductive Same : Json → Json → Prop where
  | null : Same .null .null
  | bool (b : Bool) : Same (.bool b) (.bool b)
  | number (n : Number) : Same (.number n) (.number n)
  | string (s : String) : Same (.string s) (.string s)
  | array {items others : List Json} (hlength : items.length = others.length)
      (h : ∀ p ∈ items.zip others, Same p.1 p.2) : Same (.array items) (.array others)
  | object {members others : List (String × Json)}
      (hkeys : ∀ key, key ∈ keys members ↔ key ∈ keys others)
      (h : ∀ m ∈ members, ∀ o ∈ others, m.1 = o.1 → Same m.2 o.2) :
      Same (.object members) (.object others)

/-- Sorting keys changes nothing but the order of members. -/
theorem same_sortKeys {v : Json} (hv : v.KeysDistinct) : v.Same v.sortKeys := by
  induction hv with
  | null => exact .null
  | bool b => exact .bool b
  | number n => exact .number n
  | string s => exact .string s
  | @array items h ih =>
    rw [sortKeys_array]
    refine .array (List.length_map sortKeys).symm fun p hp => ?_
    rw [← List.map_prod_left_eq_zip] at hp
    obtain ⟨v, hv, rfl⟩ := List.mem_map.1 hp
    exact ih v hv
  | @object members hkeys h ih =>
    rw [sortKeys_object]
    refine .object (fun key => ?_) fun m hm o ho hkey => ?_
    · rw [← keys_map sortKeys members]
      exact ((perm_sortByKey _).map Prod.fst).mem_iff.symm
    · obtain ⟨e, he, rfl⟩ := List.mem_map.1 (mem_sortByKey.1 ho)
      have hsame : m = e := List.inj_on_of_nodup_map hkeys hm he hkey
      rw [← hsame]
      exact ih m hm

/-! ## Nesting -/

mutual

/-- How many containers stand inside one another. -/
def nesting : Json → Nat
  | .array items => itemsNesting items + 1
  | .object members => membersNesting members + 1
  | _ => 0

/-- How deep the deepest item is. -/
def itemsNesting : List Json → Nat
  | [] => 0
  | v :: rest => max v.nesting (itemsNesting rest)

/-- How deep the deepest member is. -/
def membersNesting : List (String × Json) → Nat
  | [] => 0
  | (_, v) :: rest => max v.nesting (membersNesting rest)

end

theorem nesting_le_of_mem_items {items : List Json} {v : Json} (h : v ∈ items) :
    v.nesting ≤ itemsNesting items := by
  induction items with
  | nil => cases h
  | cons w rest ih =>
    rw [itemsNesting]
    rcases List.mem_cons.1 h with rfl | h
    · exact Nat.le_max_left _ _
    · exact (ih h).trans (Nat.le_max_right _ _)

theorem nesting_le_of_mem_members {members : List (String × Json)} {m : String × Json}
    (h : m ∈ members) : m.2.nesting ≤ membersNesting members := by
  induction members with
  | nil => cases h
  | cons o rest ih =>
    rw [membersNesting]
    rcases List.mem_cons.1 h with rfl | h
    · exact Nat.le_max_left _ _
    · exact (ih h).trans (Nat.le_max_right _ _)

/-- A value without numbers fits into its own nesting. -/
theorem fits_nesting {v : Json} (hv : v.NumberFree) : v.Fits v.nesting := by
  obtain ⟨n, hn⟩ := hv
  induction hn with
  | null => exact .null 0
  | bool _ b => exact .bool 0 b
  | string _ s => exact .string 0 s
  | array h ih => exact .array fun v hv => (ih v hv).mono (nesting_le_of_mem_items hv)
  | object h ih => exact .object fun m hm => (ih m hm).mono (nesting_le_of_mem_members hm)

/-! ## Reading -/

/-- Bytes that are read as a value, up to the order of keys, without any key being repeated in an
object. The reader has to allow as many containers inside one another as there are. -/
def ReadsAs (bytes : List UInt8) (v : Json) : Prop :=
  ∃ w : Json, w.KeysDistinct ∧ w.Same v ∧ ∀ depth, w.nesting < depth → parse depth bytes = .ok w

/-- An indented text is read as the value with its keys sorted. -/
theorem readsAs_indented {v : Json} (hfree : v.NumberFree) (hkeys : v.KeysDistinct) :
    ReadsAs (utf8 v.indented) v.sortKeys := by
  refine ⟨v, hkeys, same_sortKeys hkeys, fun depth hdepth => ?_⟩
  obtain ⟨n, rfl⟩ := Nat.exists_eq_add_one_of_ne_zero (Nat.ne_zero_of_lt hdepth)
  exact parse_indented ((fits_nesting hfree).mono (Nat.lt_succ_iff.1 hdepth))

end InterfaceSchema.Json
