import InterfaceSchema.Proofs.KeyOrder
import InterfaceSchema.Proofs.Overwriting
import InterfaceSchema.Proofs.Sources

/-!
# Walks over written files

A walk passes over a file of a name that the filter does not want. So a walk that starts anywhere
in a tree comes by the same files and directories, in the same order, after such files have been
written; and JSON files are not wanted, unless they are asked for.

## Main definitions

* `Node.visits?` — what a walk comes by below a directory of a file tree.
* `Node.entryVisits` — what it comes by at and below each entry.
-/

namespace InterfaceSchema

/-- Entries with nothing in them do not count, wherever they are sorted to. -/
theorem flatMap_sortByKey_concat {α : Type} (entries : List (String × List α)) (key : String) :
    (sortByKey (entries ++ [(key, [])])).flatMap Prod.snd =
      (sortByKey entries).flatMap Prod.snd := by
  have hskip (l : List (String × List α)) :
      l.flatMap Prod.snd = (l.filter (!·.2.isEmpty)).flatMap Prod.snd := by
    induction l with
    | nil => rfl
    | cons e rest ih =>
      rw [List.flatMap_cons, ih, List.filter_cons]
      cases he : e.2 <;> simp [he]
  have hnone : [(key, ([] : List α))].filter (!·.2.isEmpty) = [] := rfl
  rw [hskip, filter_sortByKey, List.filter_append, hnone, List.append_nil, ← filter_sortByKey,
    ← hskip]

namespace Node

variable {f : SourceFilter}

/-! ## Walks below a directory -/

/-- What a walk comes by below a directory of a file tree. There is no walk below a file. -/
def visits? (f : SourceFilter) (node : Node) : Option (List Visit) :=
  node.entry.visits? f

/-- For each entry of a directory, what a walk comes by at and below it. -/
def entryVisits (f : SourceFilter) (entries : List (String × Node)) : List (String × List Visit) :=
  entries.map fun e => (e.1, e.2.entry.visitsAt f (utf8 e.1))

/-- What a walk comes by at and below a node, by what it comes by below it. -/
theorem visitsAt_eq (f : SourceFilter) (name : RawName) (node : Node) :
    node.entry.visitsAt f name =
      match node.visits? f with
      | none => if f.wants name then [.file [name]] else []
      | some below =>
        if f.enters name then .directory [name] :: below.map (·.within name) else [] := by
  cases node with
  | file content => rw [visits?, entry, Entry.visits?, Entry.visitsAt]
  | directory entries =>
    obtain ⟨entries⟩ := entries
    rw [visits?, entry, Entry.visits?, Entry.visits, Entry.visitsAt]

theorem entryVisits_rawEntries (f : SourceFilter) (entries : List (String × Node)) :
    Entry.entryVisits f (rawEntries entries) =
      (entryVisits f entries).map fun e => (utf8 e.1, e.2) := by
  induction entries with
  | nil => rfl
  | cons e rest ih =>
    rw [rawEntries, Entry.entryVisits, ih]
    rfl

/-- Names are sorted by their bytes, as text or as bytes. -/
theorem sortByName_map_utf8 {α : Type} (entries : List (String × α)) :
    sortByName (entries.map fun e => (utf8 e.1, e.2)) =
      (sortByKey entries).map fun e => (utf8 e.1, e.2) :=
  Eq.symm <| List.map_mergeSort fun _ _ _ _ => rfl

theorem visits?_directory (f : SourceFilter) (entries : FieldMap Node) :
    (directory entries).visits? f =
      some ((sortByKey (entryVisits f entries.entries)).flatMap Prod.snd) := by
  obtain ⟨entries⟩ := entries
  rw [visits?, entry, Entry.visits?, Entry.visits, entryVisits_rawEntries, sortByName_map_utf8,
    List.flatMap_map]

/-- A replacement at which a walk comes by the same is not noticed. -/
theorem entryVisits_insertEntry {name : String} {old new : Node} {entries : List (String × Node)}
    (h : FieldMap.findEntry name entries = some old)
    (hsame : new.entry.visitsAt f (utf8 name) = old.entry.visitsAt f (utf8 name)) :
    entryVisits f (FieldMap.insertEntry name new entries) = entryVisits f entries := by
  induction entries with
  | nil => cases h
  | cons e rest ih =>
    obtain ⟨k, node⟩ := e
    rw [FieldMap.findEntry] at h
    rw [FieldMap.insertEntry]
    split_ifs at h ⊢ with hk
    · subst hk
      rw [entryVisits, entryVisits, List.map_cons, List.map_cons, hsame, Option.some.inj h]
    · rw [entryVisits, entryVisits, List.map_cons, List.map_cons, ← entryVisits, ← entryVisits,
        ih h]

/-- An entry at which a walk comes by what it came by there before, or by nothing if the entry is
new, is not noticed. -/
theorem visits?_insert {name : String} {new : Node} {entries : FieldMap Node}
    (h : new.entry.visitsAt f (utf8 name) =
      ((entries.get? name).map (·.entry.visitsAt f (utf8 name))).getD []) :
    (directory (entries.insert name new)).visits? f = (directory entries).visits? f := by
  rw [visits?_directory, visits?_directory, FieldMap.insert]
  cases hold : entries.get? name with
  | some old =>
    rw [hold, Option.map_some, Option.getD_some] at h
    rw [entryVisits_insertEntry hold h]
  | none =>
    rw [hold, Option.map_none, Option.getD_none] at h
    rw [FieldMap.insertEntry_of_not_mem (FieldMap.get?_eq_none_iff.1 hold), entryVisits,
      List.map_append, List.map_singleton, h, ← entryVisits, flatMap_sortByKey_concat]

/-- There is no walk where there is no directory. -/
theorem visits?_get?_of_ne_directory {node : Node} {place : Location}
    (h : node.at? place ≠ some none) : (node.get? place).bind (visits? f) = none := by
  rw [at?] at h
  cases hget : node.get? place with
  | none => rfl
  | some found =>
    rw [hget] at h
    cases found with
    | file content => rfl
    | directory entries => exact absurd rfl h

theorem visits?_below_of_ne_directory {node : Node} (h : node.at? [] ≠ some none)
    (place : Location) : (node.get? place).bind (visits? f) = none := by
  refine visits?_get?_of_ne_directory ?_
  cases place with
  | nil => exact h
  | cons name rest => simp [at?_of_ne_directory h]

/-- An entry is not noticed by a walk, wherever it starts, if it is noticed neither from its
directory nor from below. -/
theorem visits?_get?_insert {name : String} {new : Node} {entries : FieldMap Node}
    (hat : new.entry.visitsAt f (utf8 name) =
      ((entries.get? name).map (·.entry.visitsAt f (utf8 name))).getD [])
    (hbelow : ∀ rest, (new.get? rest).bind (visits? f) =
      ((entries.get? name).bind (·.get? rest)).bind (visits? f)) (place : Location) :
    ((directory (entries.insert name new)).get? place).bind (visits? f) =
      ((directory entries).get? place).bind (visits? f) := by
  cases place with
  | nil => exact visits?_insert hat
  | cons k rest =>
    simp only [get?, child?, FieldMap.get?_insert]
    split_ifs with hk
    · subst hk
      exact hbelow rest
    · rfl

/-- Putting a file that is not wanted into a directory, in a place where there is no directory,
is not noticed by a walk, wherever it starts. -/
theorem visits?_put_file {node : Node} {dir : Location} {name : String} (content : List UInt8)
    (hdir : node.at? dir = some none) (hfree : node.at? (dir ++ [name]) ≠ some none)
    (hwants : f.wants (utf8 name) = false) (place : Location) :
    ((node.put (dir ++ [name]) (.file content)).get? place).bind (visits? f) =
      (node.get? place).bind (visits? f) := by
  induction dir generalizing node place with
  | nil =>
    obtain ⟨entries, rfl⟩ := eq_directory_of_at? hdir
    rw [List.nil_append, at?_directory_cons] at hfree
    have hat : (file content).entry.visitsAt f (utf8 name) = [] := by
      rw [entry, Entry.visitsAt, hwants, if_neg Bool.false_ne_true]
    have hbelow : ∀ rest, ((file content).get? rest).bind (visits? f) = none :=
      visits?_below_of_ne_directory (by simp [at?, get?, content?])
    refine visits?_get?_insert ?_ (fun rest => ?_) place
    · cases hold : entries.get? name with
      | none => exact hat
      | some old =>
        rw [hold, Option.bind_some] at hfree
        have hnone : old.visits? f = none := visits?_get?_of_ne_directory hfree
        rw [put, hat, Option.map_some, Option.getD_some, visitsAt_eq, hnone, hwants]
        rfl
    · cases hold : entries.get? name with
      | none => exact hbelow rest
      | some old =>
        rw [hold, Option.bind_some] at hfree
        exact (hbelow rest).trans (visits?_below_of_ne_directory hfree rest).symm
  | cons d dir ih =>
    obtain ⟨entries, rfl⟩ := eq_directory_of_at? (at?_eq_none_of_cons hdir)
    rw [List.cons_append, at?_directory_cons] at hfree
    rw [at?_directory_cons] at hdir
    obtain ⟨child, hchild, hsub⟩ := Option.bind_eq_some_iff.1 hdir
    rw [hchild, Option.bind_some] at hfree
    have hnew := ih hsub hfree
    have hsame : (child.put (dir ++ [name]) (.file content)).visits? f = child.visits? f := hnew []
    rw [List.cons_append, put, hchild, Option.getD_some]
    refine visits?_get?_insert ?_ (fun rest => ?_) place
    · rw [hchild, Option.map_some, Option.getD_some, visitsAt_eq, visitsAt_eq, hsame]
    · rw [hchild, Option.bind_some, hnew]

end Node

namespace FileTree

variable {t now : FileTree} {outDir : Path} {outputs : List Output}

/-! ## Finding sources -/

/-- What a walk comes by below the directory that a path leads to. -/
theorem visits?_find (t : FileTree) (p : Path) (f : SourceFilter) :
    (t.find p).toOption.bind (Node.visits? f) =
      match refuse p with
      | .ok () => (t.walk (t.origin p) (wayTo p)).toOption.bind fun place =>
        (t.top.get? place).bind (Node.visits? f)
      | .error _ => none := by
  rw [find, wayTo]
  cases refuse p with
  | error reason => rfl
  | ok u =>
    cases t.walk (t.origin p) (p.segments ++ if wantsDirectory p then ["."] else []) with
    | error reason => rfl
    | ok place =>
      simp only [bind, Except.bind, Except.toOption, Option.bind_some]
      cases t.top.get? place <;> rfl

/-- The sources that are found depend on what a walk comes by. -/
theorem discover_congr {root : Path} {f : SourceFilter}
    (h : (now.find root).toOption.bind (Node.visits? f.normalized) =
      (t.find root).toOption.bind (Node.visits? f.normalized)) :
    now.discover root f = t.discover root f := by
  have hfound (s : FileTree) : ((s.find root).toOption.map Node.entry).bind
      (Entry.visits? f.normalized) = (s.find root).toOption.bind (Node.visits? f.normalized) :=
    Option.bind_map
  rw [discover, discover, discover_eq, discover_eq, hfound, hfound, h]

namespace WriteSeries

variable (h : t.WriteSeries outDir outputs now)
include h

/-- Walks do not notice JSON files that have been written, unless they are asked for. -/
theorem visits?_eq {f : SourceFilter}
    (hjson : ∀ e ∈ f.extensions, normalizeExtension e ≠ ".json") (place : Location) :
    (now.top.get? place).bind (Node.visits? f.normalized) =
      (t.top.get? place).bind (Node.visits? f.normalized) := by
  induction h with
  | nil => rfl
  | @concat outputs now dir stem h hfollow hdir hfree content ih =>
    have hwants : f.normalized.wants (utf8 (stem ++ ".json")) = false := by
      by_contra hwants
      refine (SourceFilter.not_suffix_of_wants hjson (by simpa using hwants)).1 ?_
      rw [Utf8.utf8_append]
      exact List.suffix_append _ _
    rw [← h.holds.directoryAt_eq, directoryAt_eq, decide_eq_true_iff] at hdir
    rw [← h.holds.directoryAt_eq, directoryAt_eq, decide_eq_false_iff_not] at hfree
    rw [← ih]
    exact Node.visits?_put_file content hdir hfree hwants place

/-- The sources that are found do not depend on what has been written, unless JSON files are asked
for. -/
theorem discover_eq {f : SourceFilter}
    (hjson : ∀ e ∈ f.extensions, normalizeExtension e ≠ ".json") (root : Path) :
    now.discover root f = t.discover root f := by
  apply discover_congr
  rw [visits?_find, visits?_find, h.holds.origin_eq]
  cases refuse root with
  | error reason => rfl
  | ok u =>
    cases hwalk : t.walk (t.origin root) (wayTo root) with
    | ok place =>
      rw [h.holds.walk_of_walk hwalk]
      exact h.visits?_eq hjson place
    | error reason =>
      cases hnow : now.walk (t.origin root) (wayTo root) with
      | error reason => rfl
      | ok place =>
        -- only the way to an output is new, and an output is no directory
        obtain hold | ⟨o, ho, rfl⟩ := h.holds.walk_or hnow
        · rw [hwalk] at hold
          cases hold
        · have hfree := h.holds.directoryAt_output ho
          rw [directoryAt_eq, decide_eq_false_iff_not] at hfree
          exact (h.visits?_eq hjson o.1).trans (Node.visits?_get?_of_ne_directory hfree)

end WriteSeries

end FileTree

end InterfaceSchema
