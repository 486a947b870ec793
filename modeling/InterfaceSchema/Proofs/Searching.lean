import InterfaceSchema.Proofs.Extensions
import InterfaceSchema.Proofs.KeyOrder
import InterfaceSchema.Proofs.Sources
import InterfaceSchema.Proofs.StrictReading

/-!
# Files that are found

A walk enters a directory unless its name is to be skipped or hidden, and so it comes by a file
exactly if it enters every directory on the way to it. What is found can therefore be told place by
place, without a walk: by the names on the way and by the extension of the last one. Directories are
visited in the order of their names, so places come in the order of the names on the way to them,
compared one by one.

A name is hidden or to be skipped as a text. A name that is no text is neither, even if it starts
with a dot.

## Main definitions

* `Entry.Holds` — what stands at a place below a directory.
* `Entry.WellNamed` — directories as they can be listed, with names that are names.
* `SourceFilter.Admits` — the directories that may be on the way to a file.
* `SourceFilter.Selects` — the files that a filter is meant to choose.
-/

namespace InterfaceSchema

/-- A name of an entry: without slashes, and neither empty nor dots that mean a directory. -/
structure IsEntryName (name : RawName) : Prop where
  single : 0x2F ∉ name
  nonempty : name ≠ []
  notHere : name ≠ [0x2E]
  notUp : name ≠ [0x2E, 0x2E]

/-- Whether something stands at a place below an entry. -/
inductive Entry.Holds : Entry → RawLocation → Entry → Prop where
  | here (entry : Entry) : Holds entry [] entry
  | inside {entries : List (RawName × Entry)} {name : RawName} {child found : Entry}
    {rest : RawLocation} (hmem : (name, child) ∈ entries) (h : Holds child rest found) :
    Holds (.directory entries) (name :: rest) found

/-- Entries below which every directory has entries of distinct names, and these are names of
entries. -/
inductive Entry.WellNamed : Entry → Prop where
  | file : WellNamed .file
  | directory {entries : List (RawName × Entry)} (distinct : (entries.map Prod.fst).Nodup)
    (names : ∀ e ∈ entries, IsEntryName e.1) (below : ∀ e ∈ entries, WellNamed e.2) :
    WellNamed (.directory entries)
  | other : WellNamed .other

/-- Whether a name is a text that starts with a dot. -/
def IsHidden (name : RawName) : Prop :=
  ∃ s : String, name = utf8 s ∧ s.toList.head? = some '.'

/-- Whether no directory on a way is skipped for its name or for being hidden. -/
structure SourceFilter.Admits (f : SourceFilter) (dirs : RawLocation) : Prop where
  entered : ∀ dir ∈ dirs, ∀ s ∈ f.skipDirs, dir ≠ utf8 s
  visible : f.skipHidden = true → ∀ dir ∈ dirs, ¬IsHidden dir

/-- Whether a filter is meant to choose a file of the given name in the directory that the given
directories lead to. -/
structure SourceFilter.Selects (f : SourceFilter) (dirs : RawLocation) (name : RawName) :
    Prop where
  admits : f.Admits dirs
  visible : f.skipHidden = true → ¬IsHidden name
  extension : ∃ ext, HasExtension name ext ∧ f.AsksFor ext

namespace SourceFilter

variable {f : SourceFilter} {name : RawName} {dirs : RawLocation}

/-- What is passed over is a text: a hidden one, or the name of a directory to skip. -/
theorem skips_eq_true_iff {isDirectory : Bool} : f.skips name isDirectory = true ↔
    f.skipHidden = true ∧ IsHidden name ∨
      isDirectory = true ∧ ∃ s ∈ f.skipDirs, name = utf8 s := by
  rw [skips]
  cases h : Utf8.decode? name with
  | none =>
    have hnot (s : String) : name ≠ utf8 s := by
      rintro rfl
      rw [utf8, Utf8.decode?_encode] at h
      cases h
    simp [IsHidden, hnot]
  | some cs =>
    obtain rfl : utf8 (String.ofList cs) = name := by
      rw [utf8, String.toList_ofList, Utf8.decode?_eq_some_iff.1 h]
    have hhidden : IsHidden (utf8 (String.ofList cs)) ↔ cs.head? = some '.' := by
      simp [IsHidden, utf8_injective.eq_iff]
    simp [hhidden, utf8_injective.eq_iff]

theorem enters_normalized_iff : f.normalized.enters name = true ↔
    (∀ s ∈ f.skipDirs, name ≠ utf8 s) ∧ (f.skipHidden = true → ¬IsHidden name) := by
  have hskips : f.normalized.skips name true = f.skips name true := rfl
  rw [enters, hskips, Bool.not_eq_true', ← Bool.not_eq_true, skips_eq_true_iff]
  simp only [true_and]
  grind

theorem skips_file_iff :
    f.skips name false = false ↔ (f.skipHidden = true → ¬IsHidden name) := by
  rw [← Bool.not_eq_true, skips_eq_true_iff]
  simp

theorem admits_iff : f.Admits dirs ↔ ∀ dir ∈ dirs, f.normalized.enters dir = true := by
  constructor
  · intro h dir hdir
    exact enters_normalized_iff.2 ⟨h.entered dir hdir, fun hskip => h.visible hskip dir hdir⟩
  · intro h
    constructor
    · intro dir hdir
      exact (enters_normalized_iff.1 (h dir hdir)).1
    · intro hskip dir hdir
      exact (enters_normalized_iff.1 (h dir hdir)).2 hskip

theorem selects_iff (hname : name ≠ [0x2E, 0x2E]) : f.Selects dirs name ↔
    (∀ dir ∈ dirs, f.normalized.enters dir = true) ∧ f.normalized.wants name = true := by
  rw [wants_normalized_iff f hname, skips_file_iff, ← admits_iff]
  constructor
  · intro h
    exact ⟨h.admits, h.visible, h.extension⟩
  · rintro ⟨hadmits, hvisible, hextension⟩
    exact ⟨hadmits, hvisible, hextension⟩

end SourceFilter

/-! ## Walks -/

namespace Visit

/-- The place of a file or directory that a walk comes by. -/
def place : Visit → RawLocation
  | .directory place => place
  | .file place => place

/-- Whether a walk that comes by an entry of the given name comes by it in this way. -/
def Reaches (f : SourceFilter) (name : RawName) : Visit → Entry → Prop
  | .file _, .file => f.wants name = true
  | .directory _, .directory _ => f.enters name = true
  | _, _ => False

theorem place_within (name : RawName) (v : Visit) : (v.within name).place = name :: v.place := by
  cases v <;> rfl

theorem within_injective (name : RawName) : Function.Injective (within name) := by
  intro v w h
  cases v <;> cases w <;> grind [within]

theorem exists_within {v : Visit} {name : RawName} {rest : RawLocation}
    (h : v.place = name :: rest) : ∃ w : Visit, v = w.within name ∧ w.place = rest := by
  cases v with
  | directory p => exact ⟨.directory rest, congrArg directory h, rfl⟩
  | file p => exact ⟨.file rest, congrArg file h, rfl⟩

theorem reaches_within {f : SourceFilter} {name dir : RawName} {v : Visit} {entry : Entry} :
    (v.within dir).Reaches f name entry ↔ v.Reaches f name entry := by
  cases v <;> cases entry <;> rfl

end Visit

namespace Entry

variable {f : SourceFilter} {entries : List (RawName × Entry)} {name : RawName} {v : Visit}
  {entry found : Entry} {rest : RawLocation}

theorem holds_nil_iff : entry.Holds [] found ↔ found = entry := by
  constructor
  · rintro ⟨⟩
    rfl
  · rintro rfl
    exact .here found

theorem holds_cons_iff : entry.Holds (name :: rest) found ↔
    ∃ entries child, entry = .directory entries ∧ (name, child) ∈ entries ∧
      child.Holds rest found := by
  constructor
  · rintro ⟨⟩
    exact ⟨_, _, rfl, ‹_›, ‹_›⟩
  · rintro ⟨entries, child, rfl, hmem, h⟩
    exact .inside hmem h

theorem entryVisits_eq (f : SourceFilter) (entries : List (RawName × Entry)) :
    entryVisits f entries = entries.map fun e => (e.1, e.2.visitsAt f e.1) := by
  induction entries with
  | nil => rfl
  | cons e rest ih => rw [entryVisits, ih, List.map_cons]

theorem mem_visits_iff : v ∈ entry.visits f ↔ ∃ entries name child,
    entry = .directory entries ∧ (name, child) ∈ entries ∧ v ∈ child.visitsAt f name := by
  cases entry with
  | file => simp [visits]
  | other => simp [visits]
  | directory entries =>
    rw [visits, List.mem_flatMap]
    simp only [sortByName, List.mem_mergeSort, entryVisits_eq, List.mem_map]
    constructor
    · rintro ⟨_, ⟨⟨name, child⟩, he, rfl⟩, hv⟩
      exact ⟨entries, name, child, rfl, he, hv⟩
    · rintro ⟨_, name, child, ⟨⟩, he, hv⟩
      exact ⟨_, ⟨_, he, rfl⟩, hv⟩

theorem visitsAt_directory : (directory entries).visitsAt f name =
    if f.enters name then
      .directory [name] :: ((directory entries).visits f).map (·.within name)
    else [] := by
  rw [visitsAt, visits]

/-- At an entry of a name, a walk comes by the entry itself and by what it comes by below it, if it
enters the entry. -/
theorem mem_visitsAt_iff : v ∈ entry.visitsAt f name ↔
    v.place = [name] ∧ v.Reaches f name entry ∨
      f.enters name = true ∧ ∃ w ∈ entry.visits f, v = w.within name := by
  cases entry with
  | file =>
    rw [visitsAt, visits]
    cases v <;> grind [Visit.place, Visit.Reaches]
  | other =>
    rw [visitsAt, visits]
    cases v <;> grind [Visit.Reaches]
  | directory entries =>
    rw [visitsAt_directory]
    cases v <;> grind [Visit.place, Visit.Reaches]

theorem place_ne_nil (h : v ∈ entry.visits f) : v.place ≠ [] := by
  obtain ⟨entries, name, child, -, -, hv⟩ := mem_visits_iff.1 h
  rcases mem_visitsAt_iff.1 hv with ⟨hplace, -⟩ | ⟨-, w, -, rfl⟩
  · simp [hplace]
  · simp [Visit.place_within]

/-- A walk comes by what can be reached at a place, if it enters every directory on the way. -/
theorem mem_visits_iff_of_place {dirs : RawLocation} (hplace : v.place = dirs ++ [name]) :
    v ∈ entry.visits f ↔ (∀ dir ∈ dirs, f.enters dir = true) ∧
      ∃ found, entry.Holds v.place found ∧ v.Reaches f name found := by
  induction dirs generalizing entry v with
  | nil =>
    simp only [List.not_mem_nil, false_implies, implies_true, true_and]
    constructor
    · intro hv
      obtain ⟨entries, key, child, rfl, he, hv⟩ := mem_visits_iff.1 hv
      rcases mem_visitsAt_iff.1 hv with ⟨hkey, hreaches⟩ | ⟨-, w, hw, rfl⟩
      · obtain rfl : name = key := by simpa [hplace] using hkey
        exact ⟨child, hkey ▸ .inside he (.here child), hreaches⟩
      · -- below an entry, places are longer
        rw [Visit.place_within, List.nil_append] at hplace
        exact absurd (List.cons.inj hplace).2 (place_ne_nil hw)
    · rintro ⟨found, hfound, hreaches⟩
      rw [hplace, List.nil_append, holds_cons_iff] at hfound
      obtain ⟨entries, child, rfl, he, hchild⟩ := hfound
      obtain rfl := holds_nil_iff.1 hchild
      exact mem_visits_iff.2
        ⟨entries, name, found, rfl, he, mem_visitsAt_iff.2 (.inl ⟨hplace, hreaches⟩)⟩
  | cons dir dirs ih =>
    obtain ⟨w, rfl, hw⟩ := Visit.exists_within hplace
    simp only [Visit.place_within, holds_cons_iff, Visit.reaches_within, List.forall_mem_cons]
    constructor
    · intro hv
      obtain ⟨entries, key, child, rfl, he, hv⟩ := mem_visits_iff.1 hv
      rcases mem_visitsAt_iff.1 hv with ⟨hkey, -⟩ | ⟨henters, u, hu, heq⟩
      · simp [hplace] at hkey
      · have hplaces := congrArg Visit.place heq
        rw [Visit.place_within, Visit.place_within] at hplaces
        obtain rfl := (List.cons.inj hplaces).1
        obtain rfl := Visit.within_injective dir heq
        obtain ⟨hdirs, found, hfound, hreaches⟩ := (ih hw).1 hu
        exact ⟨⟨henters, hdirs⟩, found, ⟨entries, child, rfl, he, hfound⟩, hreaches⟩
    · rintro ⟨⟨henters, hdirs⟩, found, ⟨entries, child, rfl, he, hfound⟩, hreaches⟩
      have hmem := (ih hw).2 ⟨hdirs, found, hfound, hreaches⟩
      exact mem_visits_iff.2 ⟨entries, dir, child, rfl, he,
        mem_visitsAt_iff.2 (.inr ⟨henters, w, hmem, rfl⟩)⟩

/-! ## Places of files and directories -/

theorem mem_sources_iff {place : RawLocation} : place ∈ entry.sources f ↔
    ∃ dirs name, place = dirs ++ [name] ∧ entry.Holds place .file ∧
      (∀ dir ∈ dirs, f.enters dir = true) ∧ f.wants name = true := by
  have hmem : place ∈ entry.sources f ↔ .file place ∈ entry.visits f := by
    rw [sources, List.mem_filterMap]
    constructor
    · rintro ⟨v, hv, hplace⟩
      cases v <;> cases hplace
      exact hv
    · intro hv
      exact ⟨_, hv, rfl⟩
  rw [hmem]
  constructor
  · intro hv
    obtain hnil | ⟨dirs, name, hplace⟩ := List.eq_nil_or_concat' place
    · exact absurd hnil (place_ne_nil hv)
    · obtain ⟨hdirs, found, hfound, hreaches⟩ :=
        (mem_visits_iff_of_place (v := .file place) hplace).1 hv
      cases found with
      | file => exact ⟨dirs, name, hplace, hfound, hdirs, hreaches⟩
      | directory entries => cases hreaches
      | other => cases hreaches
  · rintro ⟨dirs, name, hplace, hfound, hdirs, hwants⟩
    exact (mem_visits_iff_of_place (v := .file place) hplace).2 ⟨hdirs, _, hfound, hwants⟩

theorem mem_entered_iff {dirs : RawLocation} : dirs ∈ entry.entered f ↔
    dirs ≠ [] ∧ (∀ dir ∈ dirs, f.enters dir = true) ∧
      ∃ entries, entry.Holds dirs (.directory entries) := by
  have hmem : dirs ∈ entry.entered f ↔ .directory dirs ∈ entry.visits f := by
    rw [entered, List.mem_filterMap]
    constructor
    · rintro ⟨v, hv, hplace⟩
      cases v <;> cases hplace
      exact hv
    · intro hv
      exact ⟨_, hv, rfl⟩
  rw [hmem]
  obtain rfl | ⟨front, last, rfl⟩ := List.eq_nil_or_concat' dirs
  · constructor
    · intro hv
      exact absurd rfl (place_ne_nil hv)
    · rintro ⟨hne, -⟩
      exact absurd rfl hne
  · rw [mem_visits_iff_of_place (v := .directory (front ++ [last])) rfl]
    constructor
    · rintro ⟨hfront, found, hfound, hreaches⟩
      cases found with
      | file => cases hreaches
      | other => cases hreaches
      | directory entries =>
        refine ⟨by simp, fun dir hdir => ?_, entries, hfound⟩
        rcases List.mem_append.1 hdir with hdir | hdir
        · exact hfront dir hdir
        · exact List.mem_singleton.1 hdir ▸ hreaches
    · rintro ⟨-, hdirs, entries, hfound⟩
      exact ⟨fun dir hdir => hdirs dir (by simp [hdir]), _, hfound, hdirs last (by simp)⟩

/-- The names on the way to a place are names of entries. -/
theorem WellNamed.isEntryName (h : entry.WellNamed) {place : RawLocation}
    (hfound : entry.Holds place found) : ∀ name ∈ place, IsEntryName name := by
  induction hfound with
  | here entry => simp
  | inside hmem _ ih =>
    cases h with
    | directory distinct names below =>
      exact List.forall_mem_cons.2 ⟨names _ hmem, ih (below _ hmem)⟩

/-! ## The order of places -/

theorem exists_place_of_mem_visitsAt (hv : v ∈ entry.visitsAt f name) :
    ∃ rest, v.place = name :: rest := by
  rcases mem_visitsAt_iff.1 hv with ⟨hplace, -⟩ | ⟨-, w, -, rfl⟩
  · exact ⟨[], hplace⟩
  · exact ⟨w.place, Visit.place_within name w⟩

/-- An entry's own place comes before those below it, and these keep their order. -/
theorem pairwise_visitsAt (h : (entry.visits f).Pairwise fun v w => v.place < w.place) :
    (entry.visitsAt f name).Pairwise fun v w => v.place < w.place := by
  cases entry with
  | file =>
    rw [visitsAt]
    split_ifs <;> simp
  | other => exact List.Pairwise.nil
  | directory entries =>
    rw [visitsAt_directory]
    split_ifs
    · rw [List.pairwise_cons, List.pairwise_map]
      constructor
      · intro w hw
        obtain ⟨v, hv, rfl⟩ := List.mem_map.1 hw
        obtain ⟨first, rest, hplace⟩ := List.exists_cons_of_ne_nil (place_ne_nil hv)
        rw [Visit.place_within, hplace, Visit.place, List.cons_lt_cons_self]
        exact List.nil_lt_cons _ _
      · refine h.imp ?_
        intro v w hvw
        rw [Visit.place_within, Visit.place_within, List.cons_lt_cons_self]
        exact hvw
    · exact List.Pairwise.nil

end Entry

/-- Things of distinct names come in the strict order of their names. -/
theorem pairwise_sortByName {α : Type} {entries : List (RawName × α)}
    (h : (entries.map Prod.fst).Nodup) :
    (sortByName entries).Pairwise fun a b => a.1 < b.1 :=
  pairwise_lt_mergeSort h

/-- Things that are in the strict order of their names have been sorted. -/
theorem sortByName_eq {α : Type} {entries sorted : List (RawName × α)}
    (hperm : sorted.Perm entries) (h : sorted.Pairwise fun a b => a.1 < b.1) :
    sortByName entries = sorted := by
  have hdistinct : (entries.map Prod.fst).Nodup := by
    rw [← (hperm.map Prod.fst).nodup_iff, List.Nodup, List.pairwise_map]
    refine h.imp ?_
    intro a b hlt heq
    exact List.lt_irrefl _ (heq ▸ hlt)
  refine List.Perm.eq_of_pairwise ?_ (pairwise_sortByName hdistinct) h
    ((List.mergeSort_perm entries _).trans hperm.symm)
  intro a b _ _ hab hba
  exact absurd hba (List.lt_asymm hab)

namespace Entry

variable {f : SourceFilter} {entry : Entry}

/-- A walk comes by places in the order of the bytes of the names on the way to them. -/
theorem pairwise_visits (h : entry.WellNamed) :
    (entry.visits f).Pairwise fun v w => v.place < w.place := by
  induction h with
  | file => exact List.Pairwise.nil
  | other => exact List.Pairwise.nil
  | @directory entries distinct names below ih =>
    have hdistinct : ((entryVisits f entries).map Prod.fst).Nodup := by
      rw [entryVisits_eq, List.map_map]
      exact distinct
    have hentry : ∀ e ∈ sortByName (entryVisits f entries),
        ∃ child, (e.1, child) ∈ entries ∧ e.2 = child.visitsAt f e.1 := by
      intro e he
      rw [sortByName, List.mem_mergeSort, entryVisits_eq, List.mem_map] at he
      obtain ⟨⟨name, child⟩, he, rfl⟩ := he
      exact ⟨child, he, rfl⟩
    rw [visits, List.pairwise_flatMap]
    constructor
    · intro e he
      obtain ⟨child, hchild, hvisits⟩ := hentry e he
      rw [hvisits]
      exact pairwise_visitsAt (ih _ hchild)
    · refine (pairwise_sortByName hdistinct).imp_of_mem ?_
      intro a b ha hb hlt v hv w hw
      obtain ⟨_, -, hvisits⟩ := hentry a ha
      obtain ⟨_, -, hothers⟩ := hentry b hb
      obtain ⟨_, hplace⟩ := exists_place_of_mem_visitsAt (hvisits ▸ hv)
      obtain ⟨_, hother⟩ := exists_place_of_mem_visitsAt (hothers ▸ hw)
      rw [hplace, hother, List.cons_lt_cons_iff]
      exact .inl hlt

theorem pairwise_sources (h : entry.WellNamed) :
    (entry.sources f).Pairwise fun p q => p < q := by
  refine (pairwise_visits h).filterMap Visit.file? ?_
  intro v w hvw p hp q hq
  cases v <;> cases hp
  cases w <;> cases hq
  exact hvw

/-- Places come in an order in which none comes before itself, so none comes twice. -/
theorem nodup_sources (h : entry.WellNamed) (f : SourceFilter) : (entry.sources f).Nodup := by
  refine (pairwise_sources h).imp ?_
  rintro p q hlt rfl
  exact List.lt_irrefl _ hlt

end Entry

/-- Different places below a directory have different paths, since names are cut apart again at the
slashes between them. -/
theorem eq_of_pathBelow_eq {root : List UInt8} {place other : RawLocation} (hne : place ≠ [])
    (hother : other ≠ []) (h : ∀ name ∈ place, IsEntryName name)
    (h' : ∀ name ∈ other, IsEntryName name) (heq : pathBelow root place = pathBelow root other) :
    place = other := by
  obtain ⟨front, hfront⟩ := exists_pathBelow root
  rw [hfront, hfront, List.append_cancel_left_eq] at heq
  rw [← List.splitOn_intercalate 0x2F (fun name hname => (h name hname).single) hne, heq,
    List.splitOn_intercalate 0x2F (fun name hname => (h' name hname).single) hother]

/-! ## Discovery -/

/-- A directory cannot be listed if its path reaches the limit. -/
theorem listingError?_of_long {path : List UInt8} (hnul : 0 ∉ path)
    (hlong : pathLimit ≤ path.length) :
    listingError? path = some (.listing (.ofBytes path) .nameTooLong) := by
  have hne : path ≠ [] := by
    rintro rfl
    exact absurd hlong (by decide)
  simp [listingError?, FileTree.refuseBytes, hnul, hne, hlong]

namespace Entry

/-- Whether a file that the filter is meant to choose stands at a place below an entry. -/
def SelectedAt (entry : Entry) (f : SourceFilter) (place : RawLocation) : Prop :=
  ∃ dirs name, place = dirs ++ [name] ∧ entry.Holds place .file ∧ f.Selects dirs name

/-- Whether there is a directory at a place below an entry that may be on the way to a file. -/
def AdmittedAt (entry : Entry) (f : SourceFilter) (dirs : RawLocation) : Prop :=
  dirs ≠ [] ∧ f.Admits dirs ∧ ∃ entries, entry.Holds dirs (.directory entries)

variable {entry : Entry}

theorem mem_sources_iff_selectedAt (h : entry.WellNamed) (f : SourceFilter) (place : RawLocation) :
    place ∈ entry.sources f.normalized ↔ entry.SelectedAt f place := by
  rw [mem_sources_iff, SelectedAt]
  refine exists_congr fun dirs => exists_congr fun name => ?_
  refine and_congr_right fun hplace => and_congr_right fun hfound => ?_
  have hname : IsEntryName name := h.isEntryName hfound name (by simp [hplace])
  rw [SourceFilter.selects_iff hname.notUp]

theorem mem_entered_iff_admittedAt (f : SourceFilter) (dirs : RawLocation) :
    dirs ∈ entry.entered f.normalized ↔ entry.AdmittedAt f dirs := by
  rw [mem_entered_iff, AdmittedAt, SourceFilter.admits_iff]

theorem SelectedAt.isEntryName {f : SourceFilter} {place : RawLocation} (h : entry.WellNamed)
    (hplace : entry.SelectedAt f place) : place ≠ [] ∧ ∀ name ∈ place, IsEntryName name := by
  obtain ⟨dirs, name, rfl, hfound, -⟩ := hplace
  exact ⟨by simp, h.isEntryName hfound⟩

end Entry

/-- Either all directories entered can be listed, and the sources are found, or the reason is that of
a directory entered. -/
theorem discover_directory_cases (root : List UInt8) (f : SourceFilter)
    (entries : List (RawName × Entry)) :
    (discover root (some (.directory entries)) f =
        .ok (((Entry.directory entries).sources f.normalized).map (pathBelow root)) ∧
      ∀ dirs, (Entry.directory entries).AdmittedAt f dirs →
        listingError? (pathBelow root dirs) = none) ∨
    ∃ reason, discover root (some (.directory entries)) f = .error reason ∧
      ∃ dirs, (Entry.directory entries).AdmittedAt f dirs ∧
        listingError? (pathBelow root dirs) = some reason := by
  have hadmitted (dirs : RawLocation) :
      dirs ∈ (Entry.directory entries).entered f.normalized ↔
        (Entry.directory entries).AdmittedAt f dirs :=
    Entry.mem_entered_iff_admittedAt f dirs
  rw [discover]
  cases hfirst : (((Entry.directory entries).entered f.normalized).map (pathBelow root)).findSome?
    listingError? with
  | none =>
    refine .inl ⟨rfl, fun dirs hdirs => ?_⟩
    exact List.findSome?_eq_none_iff.1 hfirst _
      (List.mem_map_of_mem ((hadmitted dirs).2 hdirs))
  | some reason =>
    obtain ⟨path, hpath, hreason⟩ := List.exists_of_findSome?_eq_some hfirst
    obtain ⟨dirs, hdirs, rfl⟩ := List.mem_map.1 hpath
    exact .inr ⟨reason, rfl, dirs, (hadmitted dirs).1 hdirs, hreason⟩

/-- Paths of sources are as different as the places that they lead to. -/
theorem nodup_map_pathBelow {entry : Entry} (h : entry.WellNamed) (root : List UInt8)
    (f : SourceFilter) : ((entry.sources f.normalized).map (pathBelow root)).Nodup := by
  refine (Entry.nodup_sources h f.normalized).map_on ?_
  intro p hp q hq heq
  have hselected := Entry.mem_sources_iff_selectedAt h f
  obtain ⟨hne, hnames⟩ := ((hselected p).1 hp).isEntryName h
  obtain ⟨hne', hnames'⟩ := ((hselected q).1 hq).isEntryName h
  exact eq_of_pathBelow_eq hne hne' hnames hnames' heq

/-- What is found below a directory, whatever bytes its path and the names below it are: the files
that are selected, each once, in the order of the names on the way to them, one name compared after
the other. There is an answer exactly if every directory that may be on the way to a file can be
listed, and otherwise the reason is that of such a directory. An extension asked for with a dot
behind its first character selects nothing. -/
theorem discover_selects (root : List UInt8) (f : SourceFilter)
    {entries : List (RawName × Entry)} (hnamed : (Entry.directory entries).WellNamed) :
    ((∃ paths, discover root (some (.directory entries)) f = .ok paths) ↔
      ∀ dirs, (Entry.directory entries).AdmittedAt f dirs →
        listingError? (pathBelow root dirs) = none) ∧
    (∀ reason, discover root (some (.directory entries)) f = .error reason →
      ∃ dirs, (Entry.directory entries).AdmittedAt f dirs ∧
        listingError? (pathBelow root dirs) = some reason) ∧
    (∀ paths, discover root (some (.directory entries)) f = .ok paths →
      (∀ path, path ∈ paths ↔
        ∃ place, (Entry.directory entries).SelectedAt f place ∧ path = pathBelow root place) ∧
      paths.Nodup ∧
      ∃ places : List RawLocation, paths = places.map (pathBelow root) ∧
        (∀ place, place ∈ places ↔ (Entry.directory entries).SelectedAt f place) ∧
        places.Pairwise fun p q => p < q) ∧
    ∀ e, '.' ∈ e.toList.tail → ∀ name ext, HasExtension name ext →
      normalizeExtension e ≠ "." ++ lowerCase (Utf8.lossyText ext) := by
  have hselected := Entry.mem_sources_iff_selectedAt hnamed f
  have hdots : ∀ e, '.' ∈ e.toList.tail → ∀ name ext, HasExtension name ext →
      normalizeExtension e ≠ "." ++ lowerCase (Utf8.lossyText ext) :=
    fun e he name ext hext => normalizeExtension_ne_of_dot he hext
  rcases discover_directory_cases root f entries with ⟨hok, hlistable⟩ | ⟨reason, herror, hdirs⟩
  · rw [hok]
    refine ⟨⟨fun _ => hlistable, fun _ => ⟨_, rfl⟩⟩, fun reason hreason => ?_, ?_, hdots⟩
    · cases hreason
    · rintro _ ⟨⟩
      refine ⟨fun path => ?_, nodup_map_pathBelow hnamed root f, _, rfl, hselected,
        Entry.pairwise_sources hnamed⟩
      simp only [List.mem_map, hselected, eq_comm]
  · rw [herror]
    refine ⟨⟨?_, fun hlistable => ?_⟩, ?_, fun paths hpaths => ?_, hdots⟩
    · rintro ⟨paths, hpaths⟩
      cases hpaths
    · obtain ⟨dirs, hadmitted, hlisting⟩ := hdirs
      rw [hlistable dirs hadmitted] at hlisting
      cases hlisting
    · rintro _ ⟨⟩
      exact hdirs
    · cases hpaths

/-- A root that is hidden itself. Below it a hidden directory, one to skip and a file named like one
to skip, files in a directory that comes before other files, a link, and names that are no text: a
directory whose name starts with a dot all the same, and an extension that is compared as it is
shown. -/
theorem discover_selects_nested :
    let f : SourceFilter :=
      { extensions := ["TS", ".d.ts", "t\uFFFD"], skipDirs := ["node_modules", "b.ts"],
        skipHidden := true }
    let entries : List (RawName × Entry) := [(utf8 "a.ts", .file), (utf8 "b.ts", .file),
      (utf8 "link.ts", .other), ([0x63, 0x2E, 0x74, 0xFF], .file),
      (utf8 "a", .directory [(utf8 "x.Ts", .file)]),
      (utf8 ".git", .directory [(utf8 "c.ts", .file)]),
      ([0x2E, 0xFF], .directory [(utf8 "y.ts", .file)]),
      (utf8 "node_modules", .directory [(utf8 "d.ts", .file)])]
    let places : List RawLocation := [[[0x2E, 0xFF], utf8 "y.ts"], [utf8 "a", utf8 "x.Ts"],
      [utf8 "a.ts"], [utf8 "b.ts"], [[0x63, 0x2E, 0x74, 0xFF]]]
    let paths := places.map (pathBelow (utf8 ".src"))
    (Entry.directory entries).WellNamed ∧
      discover (utf8 ".src") (some (.directory entries)) f = .ok paths ∧
      (∀ path, path ∈ paths ↔ ∃ place, (Entry.directory entries).SelectedAt f place ∧
        path = pathBelow (utf8 ".src") place) ∧ paths.Nodup := by
  intro f entries places paths
  have hnames : ∀ name ∈ [utf8 "a.ts", utf8 "b.ts", utf8 "link.ts", [0x63, 0x2E, 0x74, 0xFF],
      utf8 "a", utf8 "x.Ts", utf8 ".git", utf8 "c.ts", [0x2E, 0xFF], utf8 "y.ts",
      utf8 "node_modules", utf8 "d.ts"], IsEntryName name := by
    intro name hname
    have hgood : 0x2F ∉ name ∧ name ≠ [] ∧ name ≠ [0x2E] ∧ name ≠ [0x2E, 0x2E] := by
      revert name
      decide
    exact ⟨hgood.1, hgood.2.1, hgood.2.2.1, hgood.2.2.2⟩
  have hsingle {name : RawName} (hname : IsEntryName name) :
      (Entry.directory [(name, .file)]).WellNamed :=
    .directory (List.nodup_singleton name) (by simpa using hname) (by simpa using .file)
  have hnamed : (Entry.directory entries).WellNamed := by
    refine .directory (by decide) ?_ ?_
    · simp [entries, hnames]
    · simp [entries, hnames, hsingle, Entry.WellNamed.file, Entry.WellNamed.other]
  have hvisits : (Entry.directory entries).visits f.normalized =
      [.directory [[0x2E, 0xFF]], .file [[0x2E, 0xFF], utf8 "y.ts"], .directory [utf8 "a"],
        .file [utf8 "a", utf8 "x.Ts"], .file [utf8 "a.ts"], .file [utf8 "b.ts"],
        .file [[0x63, 0x2E, 0x74, 0xFF]]] := by
    have hentries : Entry.entryVisits f.normalized entries = [(utf8 "a.ts", [.file [utf8 "a.ts"]]),
        (utf8 "b.ts", [.file [utf8 "b.ts"]]), (utf8 "link.ts", []),
        ([0x63, 0x2E, 0x74, 0xFF], [.file [[0x63, 0x2E, 0x74, 0xFF]]]),
        (utf8 "a", [.directory [utf8 "a"], .file [utf8 "a", utf8 "x.Ts"]]), (utf8 ".git", []),
        ([0x2E, 0xFF], [.directory [[0x2E, 0xFF]], .file [[0x2E, 0xFF], utf8 "y.ts"]]),
        (utf8 "node_modules", [])] := by
      decide +kernel
    have hsorted : sortByName (Entry.entryVisits f.normalized entries) = [
        (utf8 ".git", []),
        ([0x2E, 0xFF], [.directory [[0x2E, 0xFF]], .file [[0x2E, 0xFF], utf8 "y.ts"]]),
        (utf8 "a", [.directory [utf8 "a"], .file [utf8 "a", utf8 "x.Ts"]]),
        (utf8 "a.ts", [.file [utf8 "a.ts"]]), (utf8 "b.ts", [.file [utf8 "b.ts"]]),
        ([0x63, 0x2E, 0x74, 0xFF], [.file [[0x63, 0x2E, 0x74, 0xFF]]]),
        (utf8 "link.ts", []), (utf8 "node_modules", [])] := by
      rw [hentries]
      exact sortByName_eq (by decide +kernel) (by decide +kernel)
    rw [Entry.visits, hsorted]
    rfl
  have hpaths : discover (utf8 ".src") (some (.directory entries)) f = .ok paths := by
    rw [discover_eq, Option.bind_some, Entry.visits?, hvisits]
    decide +kernel
  obtain ⟨-, -, hfound, -⟩ := discover_selects (utf8 ".src") f hnamed
  obtain ⟨hmem, hnodup, -⟩ := hfound paths hpaths
  exact ⟨hnamed, hpaths, hmem, hnodup⟩

/-- Hidden names are passed over, but a file is found in a directory whose name starts with a dot and
is no text. And a file that is selected is not found where a directory next to it cannot be listed,
since the path of this directory reaches the limit. -/
theorem discover_not_text_and_too_long :
    (discover (utf8 "s") (some (.directory [([0x2E, 0xFF], .directory [(utf8 "x.ts", .file)])]))
        ⟨[".ts"], [], true⟩ = .ok [pathBelow (utf8 "s") [[0x2E, 0xFF], utf8 "x.ts"]] ∧
      ([0x2E, 0xFF] : RawName).head? = some 0x2E) ∧
      (Entry.directory [(utf8 "a", .directory []), (utf8 "b.ts", .file)]).SelectedAt
        ⟨[".ts"], [], false⟩ [utf8 "b.ts"] ∧
      discover (List.replicate 4095 0x2F)
        (some (.directory [(utf8 "a", .directory []), (utf8 "b.ts", .file)]))
        ⟨[".ts"], [], false⟩ = .error (.listing
          (.ofBytes (pathBelow (List.replicate 4095 0x2F) [utf8 "a"])) .nameTooLong) := by
  refine ⟨⟨by decide +kernel, rfl⟩, ?_, ?_⟩
  · have hextension : HasExtension (utf8 "b.ts") (utf8 "ts") :=
      ⟨utf8 "b", by decide, by decide, by decide⟩
    refine ⟨[], _, rfl, .inside (by simp) (.here _), ⟨by simp, by simp⟩, by simp, _, hextension, ?_⟩
    exact ⟨".ts", by simp, by decide +kernel⟩
  · have hvisits : (Entry.directory [(utf8 "a", .directory []), (utf8 "b.ts", .file)]).visits
        (SourceFilter.normalized ⟨[".ts"], [], false⟩) =
          [.directory [utf8 "a"], .file [utf8 "b.ts"]] := by
      have hentries : Entry.entryVisits (SourceFilter.normalized ⟨[".ts"], [], false⟩)
          [(utf8 "a", .directory []), (utf8 "b.ts", .file)] =
            [(utf8 "a", [.directory [utf8 "a"]]), (utf8 "b.ts", [.file [utf8 "b.ts"]])] := by
        decide +kernel
      rw [Entry.visits, hentries, sortByName_eq (List.Perm.refl _) (by decide)]
      rfl
    have hlong : listingError? (pathBelow (List.replicate 4095 0x2F) [utf8 "a"]) =
        some (.listing (.ofBytes (pathBelow (List.replicate 4095 0x2F) [utf8 "a"]))
          .nameTooLong) := by
      have hpath (n : Nat) : pathBelow (List.replicate (n + 1) 0x2F) [utf8 "a"] =
          List.replicate (n + 1) 0x2F ++ [0x61] := by
        have ha : utf8 "a" = [0x61] := by decide
        simp [pathBelow, ha, List.getLast?_replicate]
      have hnul (n : Nat) : 0 ∉ List.replicate (n + 1) (0x2F : UInt8) ++ [0x61] := by simp
      rw [hpath 4094]
      refine listingError?_of_long (hnul 4094) ?_
      rw [List.length_append, List.length_replicate]
      decide
    rw [discover_eq, Option.bind_some, Entry.visits?, hvisits]
    simp only [List.filterMap_cons, Visit.directory?, List.map_cons, List.findSome?_cons, hlong]

end InterfaceSchema
