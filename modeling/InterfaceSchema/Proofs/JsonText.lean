import InterfaceSchema.Json.Printer
import InterfaceSchema.Proofs.Cutting

/-!
# JSON text in a style

Compact text and indented text differ in the blanks only. Here a value is written with any blanks in
the places where they may stand, and both kinds of text are cases of it.

## Main definitions

* `Style` — the blanks in front of items, members and closing brackets, and behind colons.
* `Json.spread` — the text of a value in a style.
* `Json.Fits` — values without numbers in which containers are nested so many deep at most.
-/

namespace InterfaceSchema

namespace Json

/-- Blanks between the parts of a value. -/
structure Style where
  /-- What stands in front of items, members and closing brackets at a depth. -/
  gap : Nat → List Char
  /-- What stands behind the colon of a member. -/
  afterColon : List Char

namespace Style

/-- No blanks. -/
def compact : Style := ⟨fun _ => [], []⟩

/-- Lines indented by tabs. -/
def indented : Style := ⟨newLine, [' ']⟩

/-- Whether nothing but blanks of JSON stands between the parts. -/
structure Blank (style : Style) : Prop where
  gap : ∀ depth, ∀ c ∈ style.gap depth, c ∈ [' ', '\n', '\t', '\r']
  afterColon : ∀ c ∈ style.afterColon, c ∈ [' ', '\n', '\t', '\r']

theorem blank_compact : compact.Blank :=
  ⟨fun _ _ h => absurd h List.not_mem_nil, fun _ h => absurd h List.not_mem_nil⟩

theorem blank_indented : indented.Blank := by
  refine ⟨fun depth c h => ?_, by decide⟩
  rcases List.mem_cons.1 h with rfl | h
  · decide
  · rw [List.eq_of_mem_replicate h]
    decide

end Style

mutual

/-- The text of a value whose first line is at the given depth. -/
def spread (style : Style) (depth : Nat) : Json → List Char
  | .null => nullText
  | .bool b => boolText b
  | .number n => numberText n
  | .string s => stringText s
  | .array [] => ['[', ']']
  | .array (v :: more) =>
    '[' :: style.gap (depth + 1) ++ v.spread style (depth + 1)
      ++ spreadItems style (depth + 1) more ++ style.gap depth ++ [']']
  | .object [] => ['\x7b', '\x7d']
  | .object ((k, v) :: more) =>
    '\x7b' :: style.gap (depth + 1) ++ stringText k ++ ':' :: style.afterColon
      ++ v.spread style (depth + 1) ++ spreadMembers style (depth + 1) more
      ++ style.gap depth ++ ['\x7d']

/-- The text of further items of an array. -/
def spreadItems (style : Style) (depth : Nat) : List Json → List Char
  | [] => []
  | v :: more =>
    ',' :: style.gap depth ++ v.spread style depth ++ spreadItems style depth more

/-- The text of further members of an object. -/
def spreadMembers (style : Style) (depth : Nat) : List (String × Json) → List Char
  | [] => []
  | (k, v) :: more =>
    ',' :: style.gap depth ++ stringText k ++ ':' :: style.afterColon
      ++ v.spread style depth ++ spreadMembers style depth more

end

/-! ## Indented text -/

mutual

theorem indentedOnto_eq (depth : Nat) : ∀ (v : Json) (after : List Char),
    v.indentedOnto depth after = v.spread .indented depth ++ after
  | .null, _ | .bool _, _ | .number _, _ | .string _, _ => rfl
  | .array [], _ | .object [], _ => rfl
  | .array (v :: more), after => by
    rw [indentedOnto, indentedOnto_eq (depth + 1) v, indentedItems_eq (depth + 1) more]
    simp [spread, Style.indented]
  | .object ((k, v) :: more), after => by
    rw [indentedOnto, indentedOnto_eq (depth + 1) v, indentedMembers_eq (depth + 1) more]
    simp [spread, Style.indented]

theorem indentedItems_eq (depth : Nat) : ∀ (items : List Json) (after : List Char),
    indentedItems depth items after = spreadItems .indented depth items ++ after
  | [], _ => rfl
  | v :: more, after => by
    rw [indentedItems, indentedOnto_eq depth v, indentedItems_eq depth more]
    simp [spreadItems, Style.indented]

theorem indentedMembers_eq (depth : Nat) : ∀ (members : List (String × Json)) (after : List Char),
    indentedMembers depth members after = spreadMembers .indented depth members ++ after
  | [], _ => rfl
  | (k, v) :: more, after => by
    rw [indentedMembers, indentedOnto_eq depth v, indentedMembers_eq depth more]
    simp [spreadMembers, Style.indented]

end

theorem toList_indented (v : Json) : v.indented.toList = v.spread .indented 0 := by
  rw [indented, indentedOnto_eq]
  simp

/-! ## Compact text -/

mutual

theorem compactOnto_eq (depth : Nat) : ∀ (v : Json) (after : List Char),
    v.compactOnto after = v.spread .compact depth ++ after
  | .null, _ | .bool _, _ | .number _, _ | .string _, _ => rfl
  | .array [], _ | .object [], _ => rfl
  | .array (v :: more), after => by
    rw [compactOnto, compactOnto_eq (depth + 1) v, compactItems_eq (depth + 1) more]
    simp [spread, Style.compact]
  | .object ((k, v) :: more), after => by
    rw [compactOnto, compactOnto_eq (depth + 1) v, compactMembers_eq (depth + 1) more]
    simp [spread, Style.compact]

theorem compactItems_eq (depth : Nat) : ∀ (items : List Json) (after : List Char),
    compactItems items after = spreadItems .compact depth items ++ after
  | [], _ => rfl
  | v :: more, after => by
    rw [compactItems, compactOnto_eq depth v, compactItems_eq depth more]
    simp [spreadItems, Style.compact]

theorem compactMembers_eq (depth : Nat) : ∀ (members : List (String × Json)) (after : List Char),
    compactMembers members after = spreadMembers .compact depth members ++ after
  | [], _ => rfl
  | (k, v) :: more, after => by
    rw [compactMembers, compactOnto_eq depth v, compactMembers_eq depth more]
    simp [spreadMembers, Style.compact]

end

theorem toList_compact (v : Json) : v.compact.toList = v.spread .compact 0 := by
  rw [compact, compactOnto_eq 0]
  simp

/-! ## Nesting -/

/-- Values without numbers, in which at most so many containers stand inside one another. -/
inductive Fits : Nat → Json → Prop where
  | null (n : Nat) : Fits n .null
  | bool (n : Nat) (b : Bool) : Fits n (.bool b)
  | string (n : Nat) (s : String) : Fits n (.string s)
  | array {n : Nat} {items : List Json} (h : ∀ v ∈ items, Fits n v) : Fits (n + 1) (.array items)
  | object {n : Nat} {members : List (String × Json)} (h : ∀ m ∈ members, Fits n m.2) :
    Fits (n + 1) (.object members)

/-- Values without numbers. -/
def NumberFree (v : Json) : Prop :=
  ∃ n, v.Fits n

theorem Fits.mono {v : Json} {m n : Nat} (h : v.Fits m) (hmn : m ≤ n) : v.Fits n := by
  induction h generalizing n with
  | null => exact .null n
  | bool _ b => exact .bool n b
  | string _ s => exact .string n s
  | array h ih =>
    obtain ⟨k, rfl⟩ : ∃ k, n = k + 1 := ⟨n - 1, by omega⟩
    exact .array fun v hv => ih v hv (by omega)
  | object h ih =>
    obtain ⟨k, rfl⟩ : ∃ k, n = k + 1 := ⟨n - 1, by omega⟩
    exact .object fun m hm => ih m hm (by omega)

theorem numberFree_string (s : String) : NumberFree (.string s) :=
  ⟨0, .string 0 s⟩

/-- Finitely many values without numbers fit into the depth of the deepest. -/
theorem exists_fits {α : Type} {value : α → Json} {l : List α}
    (h : ∀ a ∈ l, (value a).NumberFree) : ∃ n, ∀ a ∈ l, (value a).Fits n := by
  induction l with
  | nil => exact ⟨0, fun a ha => absurd ha List.not_mem_nil⟩
  | cons a rest ih =>
    obtain ⟨hfirst, hrest⟩ := List.forall_mem_cons.1 h
    obtain ⟨m, hm⟩ := hfirst
    obtain ⟨n, hn⟩ := ih hrest
    refine ⟨max m n, List.forall_mem_cons.2 ⟨hm.mono (by omega), fun b hb => ?_⟩⟩
    exact (hn b hb).mono (by omega)

theorem numberFree_array {items : List Json} (h : ∀ v ∈ items, v.NumberFree) :
    NumberFree (.array items) := by
  obtain ⟨n, hn⟩ := exists_fits h
  exact ⟨n + 1, .array hn⟩

theorem numberFree_object {members : List (String × Json)} (h : ∀ m ∈ members, m.2.NumberFree) :
    NumberFree (.object members) := by
  obtain ⟨n, hn⟩ := exists_fits h
  exact ⟨n + 1, .object hn⟩

end Json

end InterfaceSchema
