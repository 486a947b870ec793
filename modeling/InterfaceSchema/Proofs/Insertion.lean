import InterfaceSchema.FieldMap
import Mathlib.Tactic.Common

/-!
# Inserting into field maps

Under a name that is there, insertion replaces the value and moves nothing; under a new name it puts
the entry behind all others. So inserting again what is there changes nothing, only the last of
several insertions under one name counts, and a replacement may be made before or after the
insertion under another name.
-/

namespace InterfaceSchema.FieldMap

variable {V : Type}

/-! ## New names -/

theorem insertEntry_of_not_mem {key : String} {value : V} {entries : List (String × V)}
    (h : key ∉ entries.map Prod.fst) :
    insertEntry key value entries = entries ++ [(key, value)] := by
  induction entries with
  | nil => rfl
  | cons e rest ih =>
    simp only [List.map_cons, List.mem_cons, not_or] at h
    simp [insertEntry, Ne.symm h.1, ih h.2]

/-- Entries under new and distinct names are put behind the others. -/
theorem foldl_insert_of_nodup {front entries : List (String × V)}
    (h : ((front ++ entries).map Prod.fst).Nodup) :
    entries.foldl (fun m e => m.insert e.1 e.2) ⟨front⟩ = (⟨front ++ entries⟩ : FieldMap V) := by
  induction entries generalizing front with
  | nil => simp
  | cons e rest ih =>
    obtain ⟨key, value⟩ := e
    have hsplit : front ++ (key, value) :: rest = front ++ [(key, value)] ++ rest := by simp
    have hkey : key ∉ front.map Prod.fst := by
      intro hk
      rw [List.map_append, List.nodup_append] at h
      exact h.2.2 key hk key (by simp) rfl
    rw [hsplit] at h ⊢
    rw [List.foldl_cons, insert, insertEntry_of_not_mem hkey]
    exact ih h

theorem ofList_entries {m : FieldMap V} (h : m.Distinct) : ofList m.entries = m :=
  foldl_insert_of_nodup h

/-! ## Known names -/

theorem findEntry_eq_none_iff {key : String} {entries : List (String × V)} :
    findEntry key entries = none ↔ key ∉ entries.map Prod.fst := by
  induction entries with
  | nil => simp [findEntry]
  | cons e rest ih =>
    rw [findEntry, List.map_cons, List.mem_cons, not_or, ← ih]
    split_ifs with h
    · simp [h]
    · simp [Ne.symm h]

variable {m : FieldMap V} {key other : String}

theorem get?_eq_none_iff : m.get? key = none ↔ key ∉ m.keys :=
  findEntry_eq_none_iff

theorem mem_keys_of_get? {value : V} (h : m.get? key = some value) : key ∈ m.keys := by
  by_contra hkey
  rw [get?_eq_none_iff.2 hkey] at h
  cases h

/-- Where no name occurs twice, entries are what is found under their names. -/
theorem get?_eq_some_iff (h : m.Distinct) {value : V} :
    m.get? key = some value ↔ (key, value) ∈ m.entries := by
  obtain ⟨entries⟩ := m
  change (entries.map Prod.fst).Nodup at h
  change findEntry key entries = some value ↔ (key, value) ∈ entries
  induction entries with
  | nil => simp [findEntry]
  | cons e rest ih =>
    obtain ⟨k, v⟩ := e
    obtain ⟨hk, hrest⟩ := List.nodup_cons.1 h
    rw [findEntry]
    split_ifs with heq
    · have hnot : (k, value) ∉ rest := fun hv => hk (List.mem_map.2 ⟨_, hv, rfl⟩)
      grind
    · rw [ih hrest]
      grind

/-- Inserting what is there changes nothing. -/
theorem insert_of_get? {value : V} (h : m.get? key = some value) : m.insert key value = m := by
  obtain ⟨entries⟩ := m
  suffices insertEntry key value entries = entries from congrArg mk this
  change findEntry key entries = some value at h
  induction entries with
  | nil => cases h
  | cons e rest ih =>
    obtain ⟨k, v⟩ := e
    rw [findEntry] at h
    rw [insertEntry]
    split_ifs at h ⊢ with hk
    · rw [Option.some.inj h]
    · rw [ih h]

/-- Of two insertions under one name, the second counts. -/
theorem insert_insert (m : FieldMap V) (key : String) (first second : V) :
    (m.insert key first).insert key second = m.insert key second := by
  obtain ⟨entries⟩ := m
  suffices insertEntry key second (insertEntry key first entries) = insertEntry key second entries
    from congrArg mk this
  induction entries with
  | nil => simp [insertEntry]
  | cons e rest ih =>
    rw [insertEntry, insertEntry]
    split_ifs with hk
    · rw [insertEntry, if_pos hk]
    · rw [insertEntry, if_neg hk, ih]

/-- A replacement does not mind an insertion under another name. -/
theorem insert_comm (hkey : key ∈ m.keys) (hne : key ≠ other) (value new : V) :
    (m.insert key value).insert other new = (m.insert other new).insert key value := by
  obtain ⟨entries⟩ := m
  suffices insertEntry other new (insertEntry key value entries) =
      insertEntry key value (insertEntry other new entries) from congrArg mk this
  change key ∈ entries.map Prod.fst at hkey
  induction entries with
  | nil => cases hkey
  | cons e rest ih =>
    obtain ⟨k, v⟩ := e
    by_cases hk : k = key
    · subst hk
      simp [insertEntry, hne]
    · have hrest : key ∈ rest.map Prod.fst := by
        simpa [Ne.symm hk] using hkey
      by_cases ho : k = other
      · subst ho
        simp [insertEntry, hk]
      · simp [insertEntry, hk, ho, ih hrest]

end InterfaceSchema.FieldMap
