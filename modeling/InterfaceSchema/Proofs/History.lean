import InterfaceSchema.Proofs.Insertion
import Mathlib.Data.Finset.Card
import Mathlib.Data.Finset.Dedup
import Mathlib.Data.List.Induction

/-!
# Histories of field maps

A map that is built by insertions is known from what was inserted. Its names are the names inserted,
in the order in which they first came, and under each of them is the value that came last. A map is
known from its names in order and what is found under them, so the order of insertions under
different names counts exactly where both names are new.

## Main definitions

* `FieldMap.exchangeAll` — insertions one after the other, each giving back the value it replaces.
* `FieldMap.valuesUnder` — the values inserted under a name.
-/

namespace InterfaceSchema.FieldMap

variable {V : Type}

/-- Insert entries one after the other, and list what each of them replaces. -/
def exchangeAll (m : FieldMap V) : List (String × V) → List (Option V) × FieldMap V
  | [] => ([], m)
  | (key, value) :: rest =>
    let (old, next) := m.exchange key value
    let (further, last) := next.exchangeAll rest
    (old :: further, last)

/-- The values inserted under a name, in order. -/
def valuesUnder (key : String) (history : List (String × V)) : List V :=
  (history.filter (·.1 = key)).map Prod.snd

/-! ## Observations -/

section Observations

variable (history : List (String × V))

theorem ofList_concat (key : String) (value : V) :
    ofList (history ++ [(key, value)]) = (ofList history).insert key value := by
  simp [ofList]

theorem distinct_ofList : (ofList history).Distinct := by
  induction history using List.reverseRecOn with
  | nil => exact List.nodup_nil
  | append_singleton history e ih =>
    rw [ofList_concat]
    exact ih.insert e.1 e.2

/-- A name has the place of its first insertion. -/
theorem keys_ofList : (ofList history).keys = (history.map Prod.fst).eraseDups := by
  induction history using List.reverseRecOn with
  | nil => rfl
  | append_singleton history e ih =>
    obtain ⟨key, value⟩ := e
    rw [ofList_concat, keys_insert, ih, List.map_append, List.eraseDups_append]
    simp only [List.mem_eraseDups, List.map_cons, List.map_nil, List.removeAll]
    split_ifs with h
    · simp [h]
    · simp [h, List.eraseDups_cons]

/-- A name has the value of its last insertion. -/
theorem get?_ofList (key : String) :
    (ofList history).get? key = (valuesUnder key history).getLast? := by
  induction history using List.reverseRecOn with
  | nil => rfl
  | append_singleton history e ih =>
    obtain ⟨k, value⟩ := e
    rw [ofList_concat, get?_insert, ih]
    by_cases h : k = key <;> simp [valuesUnder, h]

theorem size_ofList : (ofList history).size = (history.map Prod.fst).toFinset.card := by
  have hkeys : (ofList history).keys.toFinset = (history.map Prod.fst).toFinset := by
    ext key
    rw [keys_ofList, List.mem_toFinset, List.mem_toFinset, List.mem_eraseDups]
  rw [← hkeys, List.toFinset_card_of_nodup (distinct_ofList history), keys, List.length_map, size]

theorem isEmpty_ofList : (ofList history).isEmpty ↔ history = [] := by
  have hkeys : (ofList history).isEmpty ↔ (ofList history).keys = [] := by
    simp [isEmpty, keys]
  rw [hkeys, keys_ofList]
  constructor
  · intro h
    apply List.eq_nil_iff_forall_not_mem.2
    intro e he
    have hkey : e.1 ∈ (history.map Prod.fst).eraseDups :=
      List.mem_eraseDups.2 (List.mem_map_of_mem he)
    simp [h] at hkey
  · rintro rfl
    rfl

end Observations

/-! ## What is replaced -/

theorem exchangeAll_append (m : FieldMap V) (front back : List (String × V)) :
    m.exchangeAll (front ++ back) =
      ((m.exchangeAll front).1 ++ ((m.exchangeAll front).2.exchangeAll back).1,
        ((m.exchangeAll front).2.exchangeAll back).2) := by
  induction front generalizing m with
  | nil => rfl
  | cons e front ih => simp [exchangeAll, ih]

theorem length_exchangeAll (m : FieldMap V) (history : List (String × V)) :
    (m.exchangeAll history).1.length = history.length := by
  induction history generalizing m with
  | nil => rfl
  | cons e rest ih => simp [exchangeAll, ih]

theorem exchangeAll_empty (history : List (String × V)) :
    ((∅ : FieldMap V).exchangeAll history).2 = ofList history := by
  induction history using List.reverseRecOn with
  | nil => rfl
  | append_singleton history e ih =>
    rw [exchangeAll_append, ofList_concat]
    simp [exchangeAll, exchange_eq, ih]

/-- Every insertion replaces what is found under the name just before it. -/
theorem getElem?_exchangeAll (front back : List (String × V)) (key : String) (value : V) :
    ((∅ : FieldMap V).exchangeAll (front ++ (key, value) :: back)).1[front.length]? =
      some ((ofList front).get? key) := by
  have hlength := length_exchangeAll (∅ : FieldMap V) front
  rw [exchangeAll_append, exchangeAll_empty, List.getElem?_append_right (by omega), hlength]
  simp [exchangeAll, exchange_eq]

/-! ## Equality -/

section Equality

variable {m m' : FieldMap V} {key other : String}

/-- Where no name occurs twice, listing the entries is looking up the names. -/
theorem map_entries (h : m.Distinct) :
    m.entries.map (fun e => (e.1, some e.2)) = m.keys.map fun key => (key, m.get? key) := by
  rw [keys, List.map_map]
  apply List.map_congr_left
  intro e he
  have hget : m.get? e.1 = some e.2 := (get?_eq_some_iff h).2 he
  simp [hget]

theorem ext_iff_get? (h : m.Distinct) (h' : m'.Distinct) :
    m = m' ↔ m.keys = m'.keys ∧ ∀ key ∈ m.keys, m.get? key = m'.get? key := by
  constructor
  · rintro rfl
    exact ⟨rfl, fun _ _ => rfl⟩
  · rintro ⟨hkeys, hget⟩
    have hentries : m.entries.map (fun e => (e.1, some e.2)) =
        m'.entries.map (fun e => (e.1, some e.2)) := by
      rw [map_entries h, map_entries h', ← hkeys]
      apply List.map_congr_left
      intro key hkey
      rw [hget key hkey]
    have hinj : Function.Injective fun e : String × V => (e.1, some e.2) := by
      rintro ⟨k, v⟩ ⟨l, w⟩ heq
      simpa using heq
    obtain ⟨entries⟩ := m
    obtain ⟨entries'⟩ := m'
    exact congrArg mk (List.map_injective_iff.2 hinj hentries)

/-- Two new names come in the order in which they were inserted. -/
theorem insert_insert_ne (hne : key ≠ other) (hkey : key ∉ m.keys) (hother : other ∉ m.keys)
    (value new : V) : (m.insert key value).insert other new ≠
      (m.insert other new).insert key value := by
  intro h
  have hkeys := congrArg keys h
  simp [keys_insert, hkey, hother, hne, hne.symm] at hkeys

end Equality

/-- What is observed of a map after any insertions. Its names are the names inserted, in the order
of their first insertion, and their number is its size. The value found under a name and the one
listed with it are the value inserted last. Every insertion gives back what was found under its
name just before it. Two maps are the same exactly if they have the same names in the same order,
with the same values. So two new names cannot be inserted the other way round, whereas a value can
be replaced before or after an insertion under another name. -/
theorem ofList_history (history : List (String × V)) :
    (ofList history).keys = (history.map Prod.fst).eraseDups ∧
      (ofList history).size = (history.map Prod.fst).toFinset.card ∧
      ((ofList history).isEmpty ↔ history = []) ∧
      (∀ key, (ofList history).get? key = (valuesUnder key history).getLast?) ∧
      (ofList history).entries.map (fun e => (e.1, some e.2)) =
        (ofList history).keys.map (fun key => (key, (valuesUnder key history).getLast?)) ∧
      (∃ replaced, (∅ : FieldMap V).exchangeAll history = (replaced, ofList history) ∧
        replaced.length = history.length ∧
        ∀ front key value back, history = front ++ (key, value) :: back →
          replaced[front.length]? = some ((ofList front).get? key)) ∧
      (∀ other, ofList history = ofList other ↔ (ofList history).keys = (ofList other).keys ∧
        ∀ key ∈ (ofList history).keys, (ofList history).get? key = (ofList other).get? key) ∧
      (∀ key other value new, key ≠ other →
        key ∉ (ofList history).keys → other ∉ (ofList history).keys →
          ((ofList history).insert key value).insert other new ≠
            ((ofList history).insert other new).insert key value) ∧
      ∀ key other value new, key ≠ other → key ∈ (ofList history).keys →
        ((ofList history).insert key value).insert other new =
          ((ofList history).insert other new).insert key value := by
  have hdistinct : (ofList history).Distinct := distinct_ofList history
  refine ⟨keys_ofList history, size_ofList history, isEmpty_ofList history, get?_ofList history, ?_,
    ⟨_, Prod.ext rfl (exchangeAll_empty history), length_exchangeAll ∅ history, ?_⟩,
    fun other => ext_iff_get? hdistinct (distinct_ofList other),
    fun key other value new hne hkey hother => insert_insert_ne hne hkey hother value new,
    fun key other value new hne hkey => insert_comm hkey hne value new⟩
  · rw [map_entries hdistinct]
    simp only [get?_ofList]
  · rintro front key value back rfl
    exact getElem?_exchangeAll front back key value

/-- A name that comes again keeps its place, and a new name may come before or after its value is
replaced once more. -/
theorem ofList_history_replaced :
    let m := ofList [("b", 1), ("a", 2), ("b", 3)]
    m.keys = ["b", "a"] ∧ m.get? "b" = some 3 ∧
      (∃ replaced, (∅ : FieldMap Nat).exchangeAll [("b", 1), ("a", 2), ("b", 3)] = (replaced, m) ∧
        replaced[2]? = some (some 1)) ∧
      (m.insert "c" 4).insert "d" 5 ≠ (m.insert "d" 5).insert "c" 4 ∧
      (m.insert "b" 4).insert "c" 5 = (m.insert "c" 5).insert "b" 4 := by
  intro m
  obtain ⟨hkeys, -, -, hget, -, ⟨replaced, hall, -, hreplaced⟩, -, hnew, hknown⟩ :=
    ofList_history [("b", 1), ("a", 2), ("b", 3)]
  refine ⟨hkeys, hget "b", ⟨replaced, hall, ?_⟩, ?_, ?_⟩
  · exact hreplaced [("b", 1), ("a", 2)] "b" 3 [] rfl
  · exact hnew "c" "d" 4 5 (by decide) (by decide) (by decide)
  · exact hknown "b" "c" 4 5 (by decide) (by decide)

end InterfaceSchema.FieldMap
