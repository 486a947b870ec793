import InterfaceSchema.Discovery
import InterfaceSchema.Proofs.Cutting
import InterfaceSchema.Proofs.DamagedReading
import Mathlib.Data.List.Infix

/-!
# Names of sources

Every path that is found ends in the name of a file that the filter wants. So no path of a JSON
file is found, unless JSON files are asked for. Paths are found as bytes, and the ending of what
they are shown as is their own ending.
-/

namespace InterfaceSchema

/-- What follows the last dot of a name that ends in the extension of JSON files. -/
theorem extension?_of_json_suffix {name : RawName} (h : utf8 ".json" <:+ name) :
    extension? name = none ∨ extension? name = some (utf8 "json") := by
  obtain ⟨front, rfl⟩ := h
  have hpieces : splitAt 0x2E (front ++ utf8 ".json") = front.splitOn 0x2E ++ [utf8 "json"] := by
    rw [splitAt_eq_splitOn]
    exact List.splitOn_append_cons_self front (utf8 "json")
  rw [extension?, hpieces]
  split_ifs
  · exact .inl rfl
  · split
    · exact .inl rfl
    · exact .inl rfl
    · exact .inl rfl
    · rw [List.getLast?_concat]
      exact .inr rfl

/-- A beginning of the extension of JSON files that is cut off at the front has no extension. -/
theorem extension?_of_suffix_json {name : RawName} (h : name <:+ utf8 ".json") :
    extension? name = none := by
  have hall : ∀ cs ∈ (utf8 ".json").tails, extension? cs = none := by decide
  exact hall name ((List.mem_tails _ _).2 h)

theorem lowerCase_json : lowerCase (Utf8.lossyText (utf8 "json")) = "json" := by
  rw [Utf8.lossyText_utf8]
  decide

/-- A name that is wanted neither ends as JSON files do, nor is a part of this ending. -/
theorem SourceFilter.not_suffix_of_wants {f : SourceFilter}
    (hjson : ∀ e ∈ f.extensions, normalizeExtension e ≠ ".json") {name : RawName}
    (h : f.normalized.wants name = true) :
    ¬utf8 ".json" <:+ name ∧ ¬name <:+ utf8 ".json" := by
  rw [wants, Bool.and_eq_true, takesExtension] at h
  refine ⟨fun hsuffix => ?_, fun hsuffix => ?_⟩
  · rcases extension?_of_json_suffix hsuffix with hnone | hsome
    · rw [hnone] at h
      cases h.2
    · rw [hsome] at h
      obtain ⟨e, he, hnormal⟩ : ∃ e ∈ f.extensions, normalizeExtension e = "." ++ "json" := by
        simpa [normalized, lowerCase_json] using h.2
      exact hjson e he hnormal
  · rw [extension?_of_suffix_json hsuffix] at h
    cases h.2

namespace Entry

theorem getLast?_within {v : Visit} {name : RawName} {place : RawLocation}
    (h : v.within name = .file place) {P : RawName → Prop}
    (hv : ∀ inner, v = .file inner → ∃ last, inner.getLast? = some last ∧ P last) :
    ∃ last, place.getLast? = some last ∧ P last := by
  cases v with
  | directory inner => cases h
  | file inner =>
    cases h
    obtain ⟨last, hlast, hP⟩ := hv inner rfl
    have hne : inner ≠ [] := by
      rintro rfl
      cases hlast
    obtain ⟨k, more, rfl⟩ := List.exists_cons_of_ne_nil hne
    exact ⟨last, hlast, hP⟩

mutual

/-- The place of every file that is wanted ends in a name that is. -/
theorem wants_of_mem_visitsAt (f : SourceFilter) (name : RawName) : ∀ entry : Entry,
    ∀ place, .file place ∈ entry.visitsAt f name →
      ∃ last, place.getLast? = some last ∧ f.wants last = true
  | .file, place, h => by
    rw [visitsAt] at h
    split_ifs at h with hwants
    · cases List.mem_singleton.1 h
      exact ⟨name, rfl, hwants⟩
    · cases h
  | .directory entries, place, h => by
    rw [visitsAt] at h
    split_ifs at h with henters
    · rcases List.mem_cons.1 h with h | h
      · cases h
      · obtain ⟨v, hv, hwithin⟩ := List.mem_map.1 h
        obtain ⟨e, he, hmem⟩ := List.mem_flatMap.1 hv
        have hentry := wants_of_mem_entryVisits f entries e (List.mem_mergeSort.1 he)
        exact getLast?_within hwithin fun inner hinner => hentry inner (hinner ▸ hmem)
    · cases h
  | .other, place, h => by cases h

theorem wants_of_mem_entryVisits (f : SourceFilter) : ∀ entries : List (RawName × Entry),
    ∀ e ∈ entryVisits f entries, ∀ place, .file place ∈ e.2 →
      ∃ last, place.getLast? = some last ∧ f.wants last = true
  | [], _, he, _, _ => by cases he
  | (name, entry) :: rest, e, he, place, h => by
    rcases List.mem_cons.1 he with rfl | he
    · exact wants_of_mem_visitsAt f name entry place h
    · exact wants_of_mem_entryVisits f rest e he place h

end

theorem wants_of_mem_sources {f : SourceFilter} {dir : Entry} {place : RawLocation}
    (h : place ∈ dir.sources f) : ∃ last, place.getLast? = some last ∧ f.wants last = true := by
  obtain ⟨v, hv, hplace⟩ := List.mem_filterMap.1 h
  cases v with
  | directory inner => cases hplace
  | file inner =>
    cases hplace
    cases dir with
    | file => cases hv
    | other => cases hv
    | directory entries =>
      obtain ⟨e, he, hmem⟩ := List.mem_flatMap.1 hv
      exact wants_of_mem_entryVisits f entries e (List.mem_mergeSort.1 he) place hmem

end Entry

/-! ## Endings of paths -/

/-- The path of a place below a directory is made of something for the directory, whatever the
place, and the names that lead to the place. -/
theorem exists_pathBelow (root : List UInt8) :
    ∃ front, ∀ place, pathBelow root place = front ++ [0x2F].intercalate place := by
  cases h : root.isEmpty || root.getLast? == some 0x2F with
  | true => exact ⟨root, fun place => by rw [pathBelow, if_pos h]⟩
  | false => exact ⟨root ++ [0x2F], fun place => by simp [pathBelow, h]⟩

theorem suffix_intercalate {sep : List UInt8} {place : RawLocation} {last : RawName}
    (h : place.getLast? = some last) : last <:+ sep.intercalate place := by
  induction place with
  | nil => cases h
  | cons name rest ih =>
    cases rest with
    | nil =>
      obtain rfl : name = last := by simpa using h
      rw [List.intercalate_singleton]
    | cons next rest =>
      rw [List.intercalate_cons_cons]
      exact (ih h).trans (List.suffix_append _ _)

theorem suffix_pathBelow (root : List UInt8) {place : RawLocation} {last : RawName}
    (h : place.getLast? = some last) : last <:+ pathBelow root place := by
  obtain ⟨front, hfront⟩ := exists_pathBelow root
  rw [hfront]
  exact (suffix_intercalate h).trans (List.suffix_append _ _)

/-- A path that is shown with the extension of JSON files has it. -/
theorem Path.json_suffix_of_ofBytes {bytes : List UInt8}
    (h : ".json".toList <:+ (Path.ofBytes bytes).text.toList) : utf8 ".json" <:+ bytes := by
  have hshown : (Path.ofBytes bytes).text.toList = Utf8.decodeLossy bytes := String.toList_ofList
  rw [hshown] at h
  exact (Utf8.reads_decodeLossy bytes).suffix_of_ascii (by decide) h

/-! ## What is found -/

/-- What a walk comes by below a directory. There is no walk below anything else. -/
def Entry.visits? (f : SourceFilter) : Entry → Option (List Visit)
  | .file => none
  | .directory entries => some ((Entry.directory entries).visits f)
  | .other => none

/-- What is found, told by what a walk comes by. -/
theorem discover_eq (root : List UInt8) (found : Option Entry) (f : SourceFilter) :
    discover root found f = match found.bind (Entry.visits? f.normalized) with
      | none => .error (.notFound (.ofBytes root))
      | some visits =>
        match ((visits.filterMap Visit.directory?).map (pathBelow root)).findSome? listingError? with
        | some reason => .error reason
        | none => .ok ((visits.filterMap Visit.file?).map (pathBelow root)) := by
  cases found with
  | none => rfl
  | some entry => cases entry <;> rfl

/-- Something is found only below a directory, and then the paths of the sources. -/
theorem exists_sources_of_discover {root : List UInt8} {found : Option Entry} {f : SourceFilter}
    {files : List (List UInt8)} (h : discover root found f = .ok files) :
    ∃ entries, found = some (.directory entries) ∧
      files = ((Entry.directory entries).sources f.normalized).map (pathBelow root) := by
  unfold discover at h
  split at h
  · dsimp only at h
    split at h
    · cases h
    · exact ⟨_, rfl, (Except.ok.inj h).symm⟩
  · cases h

/-- No path that is found ends as that of a JSON file, unless JSON files are asked for. -/
theorem not_json_of_discover {root : List UInt8} {found : Option Entry} {f : SourceFilter}
    (hjson : ∀ e ∈ f.extensions, normalizeExtension e ≠ ".json") {files : List (List UInt8)}
    (h : discover root found f = .ok files) : ∀ bytes ∈ files, ¬utf8 ".json" <:+ bytes := by
  intro bytes hbytes hsuffix
  obtain ⟨entries, rfl, rfl⟩ := exists_sources_of_discover h
  obtain ⟨place, hplace, rfl⟩ := List.mem_map.1 hbytes
  obtain ⟨last, hlast, hwants⟩ := Entry.wants_of_mem_sources hplace
  obtain ⟨hnot, hnot'⟩ := SourceFilter.not_suffix_of_wants hjson hwants
  rcases List.suffix_or_suffix_of_suffix hsuffix (suffix_pathBelow root hlast) with hs | hs
  · exact hnot hs
  · exact hnot' hs

/-- No path that is found is written like that of a JSON file, unless JSON files are asked for. -/
theorem FileTree.not_json_of_discover {t : FileTree} {root : Path} {f : SourceFilter}
    (hjson : ∀ e ∈ f.extensions, normalizeExtension e ≠ ".json") {files : List Path}
    (h : t.discover root f = .ok files) :
    ∀ p ∈ files, ¬".json".toList <:+ p.text.toList := by
  intro p hp hsuffix
  rw [FileTree.discover] at h
  cases hfound : InterfaceSchema.discover (utf8 root.text) ((t.find root).toOption.map Node.entry) f
    with
  | error reason =>
    rw [hfound] at h
    cases h
  | ok paths =>
    rw [hfound] at h
    cases h
    obtain ⟨bytes, hbytes, rfl⟩ := List.mem_map.1 hp
    exact InterfaceSchema.not_json_of_discover hjson hfound bytes hbytes
      (Path.json_suffix_of_ofBytes hsuffix)

end InterfaceSchema
