/-!
# Field maps

Values under distinct names, in the order in which the names first came. A name that comes again
replaces its value and keeps its place.

## Main definitions

* `FieldMap.insert`, `FieldMap.get?` — adding or replacing an entry, looking one up.
* `FieldMap.exchange` — the same insertion, giving back the value that was there.
* `FieldMap.ofList` — the entries inserted one after the other.
* `FieldMap.Distinct` — no name twice; every map built by insertion has it.
-/

namespace InterfaceSchema

/-- Named values in the order of their names' first insertion. -/
structure FieldMap (V : Type) where
  entries : List (String × V)
  deriving DecidableEq, Repr

namespace FieldMap

variable {V : Type}

/-- The map without entries. -/
def empty : FieldMap V := ⟨[]⟩

instance : EmptyCollection (FieldMap V) := ⟨empty⟩

instance : Inhabited (FieldMap V) := ⟨empty⟩

/-- The names in order. -/
def keys (m : FieldMap V) : List String :=
  m.entries.map Prod.fst

/-- How many entries there are. -/
def size (m : FieldMap V) : Nat :=
  m.entries.length

/-- Whether there is no entry. -/
def isEmpty (m : FieldMap V) : Bool :=
  m.entries.isEmpty

/-- The value of the first entry under a name. -/
def findEntry (key : String) : List (String × V) → Option V
  | [] => none
  | (k, v) :: rest => if k = key then some v else findEntry key rest

/-- The value stored under a name. -/
def get? (m : FieldMap V) (key : String) : Option V :=
  findEntry key m.entries

/-- The entries with `value` in the place of the value under `key`, or behind all others. -/
def insertEntry (key : String) (value : V) : List (String × V) → List (String × V)
  | [] => [(key, value)]
  | (k, v) :: rest =>
    if k = key then (k, value) :: rest else (k, v) :: insertEntry key value rest

/-- Store a value under a name. -/
def insert (m : FieldMap V) (key : String) (value : V) : FieldMap V :=
  ⟨insertEntry key value m.entries⟩

/-- The value of the first entry under a name, and the entries with another value in its place. -/
def exchangeEntry (key : String) (value : V) : List (String × V) → Option V × List (String × V)
  | [] => (none, [(key, value)])
  | (k, v) :: rest =>
    if k = key then (some v, (k, value) :: rest)
    else
      let (old, rest) := exchangeEntry key value rest
      (old, (k, v) :: rest)

/-- Store a value under a name, and give back the one that was stored there. -/
def exchange (m : FieldMap V) (key : String) (value : V) : Option V × FieldMap V :=
  let (old, entries) := exchangeEntry key value m.entries
  (old, ⟨entries⟩)

/-- The map made by inserting the entries one after the other. -/
def ofList (entries : List (String × V)) : FieldMap V :=
  entries.foldl (fun m e => m.insert e.1 e.2) ∅

/-- No name occurs twice. -/
def Distinct (m : FieldMap V) : Prop :=
  m.keys.Nodup

/-! ## Insertion -/

@[simp] theorem keys_empty : (∅ : FieldMap V).keys = [] := rfl

@[simp] theorem entries_empty : (∅ : FieldMap V).entries = [] := rfl

theorem map_fst_insertEntry (key : String) (value : V) (l : List (String × V)) :
    (insertEntry key value l).map Prod.fst =
      if key ∈ l.map Prod.fst then l.map Prod.fst else l.map Prod.fst ++ [key] := by
  induction l with
  | nil => simp [insertEntry]
  | cons e rest ih =>
    obtain ⟨k, v⟩ := e
    by_cases h : k = key
    · simp [insertEntry, h]
    · have h' : ¬ key = k := fun e => h e.symm
      simp only [insertEntry, if_neg h, List.map_cons, ih, List.mem_cons, h', false_or]
      split <;> rfl

/-- A new name goes behind the others, a known one keeps its place. -/
theorem keys_insert (m : FieldMap V) (key : String) (value : V) :
    (m.insert key value).keys = if key ∈ m.keys then m.keys else m.keys ++ [key] :=
  map_fst_insertEntry key value m.entries

theorem Distinct.insert {m : FieldMap V} (h : m.Distinct) (key : String) (value : V) :
    (m.insert key value).Distinct := by
  unfold Distinct at *
  rw [keys_insert]
  split
  · exact h
  · next hk =>
    refine List.nodup_append.2 ⟨h, by simp, ?_⟩
    intro a ha b hb e
    simp only [List.mem_singleton] at hb
    exact hk (hb ▸ e ▸ ha)

/-- Looking up the name just inserted gives the value inserted; other names are as before. -/
theorem get?_insert (m : FieldMap V) (key : String) (value : V) (k : String) :
    (m.insert key value).get? k = if key = k then some value else m.get? k := by
  obtain ⟨l⟩ := m
  show findEntry k (insertEntry key value l) = if key = k then some value else findEntry k l
  induction l with
  | nil => rfl
  | cons e rest ih =>
    obtain ⟨a, v⟩ := e
    by_cases ha : a = key
    · by_cases hk : key = k <;> simp [insertEntry, findEntry, ha, hk]
    · by_cases hk : a = k
      · subst hk
        simp [insertEntry, findEntry, ha, Ne.symm ha]
      · simp [insertEntry, findEntry, ha, hk, ih]

/-- One pass looks up and inserts. -/
theorem exchange_eq (m : FieldMap V) (key : String) (value : V) :
    m.exchange key value = (m.get? key, m.insert key value) := by
  obtain ⟨entries⟩ := m
  have hentries : exchangeEntry key value entries =
      (findEntry key entries, insertEntry key value entries) := by
    fun_induction exchangeEntry key value entries with grind [findEntry, insertEntry]
  simp [exchange, hentries, get?, insert]

end FieldMap

end InterfaceSchema
