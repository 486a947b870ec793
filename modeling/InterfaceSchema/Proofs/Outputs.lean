import InterfaceSchema.Discovery
import InterfaceSchema.Proofs.Paths
import InterfaceSchema.Proofs.Places
import InterfaceSchema.Publication

/-!
# Trees with written files

A tree after files have been written into one directory, compared with the tree before. Neither
what else is written into this directory nor what is read from files of other kinds depends on
which of the files have been written already.

## Main definitions

* `FileTree.Holds` — a tree that differs from another by written files.
-/

namespace InterfaceSchema

/-- A file that has been written: its place and its bytes. -/
abbrev Output := Location × List UInt8

/-- What was written last at a place. -/
def lastOutput? (outputs : List Output) (place : Location) : Option (List UInt8) :=
  outputs.reverse.lookup place

namespace FileTree

/-- Where a path leads that is followed from a tree's top or working directory. -/
def follow (t : FileTree) (p : Path) : Except AccessError Location :=
  t.walk (t.origin p) p.segments

/-- A tree in which the outputs have been written into the directory that a path leads to. They
are JSON files, and they replaced no directory. -/
structure Holds (t : FileTree) (outDir : Path) (outputs : List Output) (now : FileTree) : Prop where
  workingDirectory : now.workingDirectory = t.workingDirectory
  at_eq : ∀ place, now.at? place =
    match lastOutput? outputs place with
    | some content => some (some content)
    | none => t.at? place
  outputs_in : ∀ o ∈ outputs, ∃ dir stem, t.follow outDir = .ok dir ∧ t.directoryAt dir = true ∧
    o.1 = dir ++ [stem ++ ".json"] ∧ t.directoryAt o.1 = false

end FileTree

/-- The name of an output is longer than its ending. -/
theorem append_json_ne (stem : String) {name : String} (h : name.length < 5) :
    stem ++ ".json" ≠ name := by
  rintro rfl
  have hending : ".json".length = 5 := by decide
  rw [String.length_append, hending] at h
  omega

/-- Writing once more at a place replaces what was written there. -/
theorem lastOutput?_concat (outputs : List Output) (place : Location) (content : List UInt8)
    (l : Location) : lastOutput? (outputs ++ [(place, content)]) l =
      if l = place then some content else lastOutput? outputs l := by
  rw [lastOutput?, lastOutput?, List.reverse_concat, List.lookup_cons]
  by_cases h : l = place
  · simp [h]
  · rw [beq_false_of_ne h, if_neg h]

theorem mem_of_lastOutput? {outputs : List Output} {place : Location} {content : List UInt8}
    (h : lastOutput? outputs place = some content) : (place, content) ∈ outputs := by
  obtain ⟨front, rest, heq, -⟩ := List.lookup_eq_some_iff.1 h
  rw [← List.mem_reverse, heq]
  simp

namespace FileTree

theorem holds_self (t : FileTree) (outDir : Path) : t.Holds outDir [] t :=
  ⟨rfl, fun _ => rfl, fun _ h => absurd h List.not_mem_nil⟩

namespace Holds

variable {t now : FileTree} {outDir : Path} {outputs : List Output}
  (h : t.Holds outDir outputs now)
include h

theorem origin_eq (p : Path) : now.origin p = t.origin p := by
  rw [origin, origin, h.workingDirectory]

/-- Outputs are no directories, and did not replace any. -/
theorem directoryAt_output {o : Output} (ho : o ∈ outputs) : t.directoryAt o.1 = false := by
  obtain ⟨_, _, -, -, -, hfree⟩ := h.outputs_in o ho
  exact hfree

theorem directoryAt_eq (place : Location) : now.directoryAt place = t.directoryAt place := by
  have hat := h.at_eq place
  cases hlast : lastOutput? outputs place with
  | none => rw [FileTree.directoryAt_eq, FileTree.directoryAt_eq, hat, hlast]
  | some content =>
    rw [h.directoryAt_output (mem_of_lastOutput? hlast), FileTree.directoryAt_eq, hat, hlast]
    simp

theorem isSome_at? {place : Location} (ht : (t.at? place).isSome = true) :
    (now.at? place).isSome = true := by
  rw [h.at_eq]
  cases lastOutput? outputs place with
  | none => exact ht
  | some content => rfl

theorem isSome_at?_or {place : Location} (hnow : (now.at? place).isSome = true) :
    (t.at? place).isSome = true ∨ ∃ o ∈ outputs, o.1 = place := by
  rw [h.at_eq] at hnow
  cases hlast : lastOutput? outputs place with
  | none => exact .inl (by simpa [hlast] using hnow)
  | some content => exact .inr ⟨_, mem_of_lastOutput? hlast, rfl⟩

/-! ## Following paths -/

/-- Every way that led somewhere still leads there. -/
theorem walk_of_walk {names : List String} {place last : Location}
    (hwalk : t.walk place names = .ok last) : now.walk place names = .ok last :=
  FileTree.walk_of_walk hwalk (fun _ _ _ _ hdir => by rwa [h.directoryAt_eq])
    fun _ _ _ _ hsome => h.isSome_at? hsome

/-- A way leads where it led before, or to an output. -/
theorem walk_or {names : List String} {place last : Location}
    (hwalk : now.walk place names = .ok last) :
    t.walk place names = .ok last ∨ ∃ o ∈ outputs, o.1 = last := by
  induction names generalizing place with
  | nil => exact .inl hwalk
  | cons name rest ih =>
    rw [walk_cons] at hwalk ⊢
    rw [h.directoryAt_eq] at hwalk
    split_ifs at hwalk with hdir hhere hup hlong hsome
    · rw [if_neg hdir, if_pos hhere]
      exact ih hwalk
    · rw [if_neg hdir, if_neg hhere, if_pos hup]
      exact ih hwalk
    · rw [if_neg hdir, if_neg hhere, if_neg hup, if_neg hlong]
      by_cases hold : (t.at? (place ++ [name])).isSome = true
      · rw [if_pos hold]
        exact ih hwalk
      -- the way goes over an output, and does not go on behind it
      obtain hold' | ⟨o, ho, hplace⟩ := h.isSome_at?_or hsome
      · exact absurd hold' hold
      cases rest with
      | nil =>
        cases hwalk
        exact .inr ⟨o, ho, hplace⟩
      | cons next more =>
        rw [walk_cons, h.directoryAt_eq, ← hplace, h.directoryAt_output ho, if_pos rfl] at hwalk
        cases hwalk

/-- The way to the output directory is the same. -/
theorem follow_eq : now.follow outDir = t.follow outDir := by
  rw [follow, follow, h.origin_eq]
  cases hout : outputs with
  | cons o rest =>
    obtain ⟨dir, _, hfollow, -⟩ := h.outputs_in o (by simp [hout])
    rw [follow] at hfollow
    rw [hfollow, h.walk_of_walk hfollow]
  | nil =>
    have hat : ∀ place, now.at? place = t.at? place := fun place => by
      rw [h.at_eq, hout]
      rfl
    generalize t.origin outDir = place
    induction outDir.segments generalizing place with
    | nil => rfl
    | cons name rest ih => simp only [walk_cons, h.directoryAt_eq, hat, ih]

end Holds

/-! ## Reading -/

/-- The names that are followed when a node is looked for. A slash at the end asks for a
directory. -/
def wayTo (p : Path) : List String :=
  p.segments ++ if wantsDirectory p then ["."] else []

/-- What a path leads to, without what a directory holds. -/
theorem content?_find (t : FileTree) (p : Path) : (t.find p).toOption.map Node.content? =
    match refuse p with
    | .ok () => (t.walk (t.origin p) (wayTo p)).toOption.bind t.at?
    | .error _ => none := by
  rw [find, wayTo]
  cases refuse p with
  | error reason => rfl
  | ok u =>
    cases hwalk : t.walk (t.origin p) (p.segments ++ if wantsDirectory p then ["."] else []) with
    | error reason => rfl
    | ok place =>
      have hat : t.at? place = (t.top.get? place).map Node.content? := rfl
      simp only [bind, Except.bind, Except.toOption, Option.bind_some, hat]
      cases t.top.get? place <;> rfl

/-- What is read from what a path leads to. -/
theorem readSource_eq (t : FileTree) (p : Path) (limit : UInt64) : t.readSource p limit =
    match (t.find p).toOption.map Node.content? with
    | none => .error (.notFound p)
    | some none =>
      if limit.toNat < 4096 then .error (.tooLarge 4096 limit.toNat)
      else .error (.access .isADirectory)
    | some (some content) =>
      if limit.toNat < content.length then .error (.tooLarge content.length limit.toNat)
      else decodeSource content := by
  rw [readSource]
  cases t.find p with
  | error reason => rfl
  | ok node => cases node <;> rfl

namespace Holds

variable {t now : FileTree} {outDir : Path} {outputs : List Output}
  (h : t.Holds outDir outputs now)
include h

/-- A path that is not written like the path of an output does not lead to one. -/
theorem walk_ne_output {s : FileTree} (hs : ∀ o ∈ outputs, s.directoryAt o.1 = false) {p : Path}
    (hne : p.text ≠ "") (hjson : ¬".json".toList <:+ p.text.toList) {o : Output}
    (ho : o ∈ outputs) (place : Location) : s.walk place (wayTo p) ≠ .ok o.1 := by
  intro hwalk
  obtain ⟨_, stem, -, -, hplace, -⟩ := h.outputs_in o ho
  have hlast : o.1.getLast? = some (stem ++ ".json") := by rw [hplace, List.getLast?_concat]
  cases hslash : wantsDirectory p with
  | true =>
    have hway : wayTo p = p.segments ++ ["."] := by rw [wayTo, hslash, if_pos rfl]
    rcases directoryAt_or_getLast?_of_walk (by simp [hway]) hwalk with hdir | hname
    · exact absurd hdir (by simp [hs o ho])
    · rw [hlast, hway, List.getLast?_concat] at hname
      exact append_json_ne stem (by decide) (Option.some.inj hname)
  | false =>
    have hway : wayTo p = p.segments := by rw [wayTo, hslash]; simp
    obtain ⟨name, hsegments, hsuffix⟩ :=
      Path.exists_last_name hne (by simpa [wantsDirectory] using hslash)
    have hnil : p.segments ≠ [] := by
      intro hnil
      rw [hnil] at hsegments
      cases hsegments
    rw [hway] at hwalk
    rcases directoryAt_or_getLast?_of_walk hnil hwalk with hdir | hname
    · exact absurd hdir (by simp [hs o ho])
    · rw [hlast, hsegments] at hname
      rw [← Option.some.inj hname, String.toList_append] at hsuffix
      exact hjson ((List.suffix_append _ _).trans hsuffix)

/-- A source that is not written like an output is read as it was before. -/
theorem readSource_eq {p : Path} (hjson : ¬".json".toList <:+ p.text.toList) (limit : UInt64) :
    now.readSource p limit = t.readSource p limit := by
  suffices (now.find p).toOption.map Node.content? = (t.find p).toOption.map Node.content? by
    rw [FileTree.readSource_eq, FileTree.readSource_eq, this]
  rw [content?_find, content?_find]
  cases hrefuse : refuse p with
  | error reason => rfl
  | ok u =>
    have hne : p.text ≠ "" := by
      intro he
      simp [refuse, refuseBytes, he, utf8, Utf8.encode] at hrefuse
    rw [h.origin_eq]
    cases hwalk : t.walk (t.origin p) (wayTo p) with
    | ok place =>
      have hnone : lastOutput? outputs place = none := by
        cases hlast : lastOutput? outputs place with
        | none => rfl
        | some content =>
          exact absurd hwalk (h.walk_ne_output (fun o => h.directoryAt_output) hne hjson
            (mem_of_lastOutput? hlast) _)
      rw [h.walk_of_walk hwalk]
      change now.at? place = t.at? place
      rw [h.at_eq, hnone]
    | error reason =>
      cases hnow : now.walk (t.origin p) (wayTo p) with
      | error reason => rfl
      | ok place =>
        rcases h.walk_or hnow with hold | ⟨o, ho, rfl⟩
        · rw [hwalk] at hold
          cases hold
        · have hfree : ∀ o ∈ outputs, now.directoryAt o.1 = false := fun o ho => by
            rw [h.directoryAt_eq, h.directoryAt_output ho]
          exact absurd hnow (h.walk_ne_output hfree hne hjson ho _)

end Holds

end FileTree

/-! ## Publishing -/

/-- A title without slashes, with the ending behind it, means an entry of a directory. -/
theorem Schema.isFileName_of_not_mem {s : Schema} (h : '/' ∉ s.title.toList) :
    IsFileName s.fileName := by
  refine ⟨?_, ?_, ?_, ?_⟩
  · rw [fileName, String.toList_append, List.mem_append]
    exact not_or.2 ⟨h, by decide⟩
  · exact append_json_ne s.title (by decide)
  · exact append_json_ne s.title (by decide)
  · exact append_json_ne s.title (by decide)

/-- A name that is safe for a schema is its title with the ending behind it, and means an entry of
a directory. -/
theorem Schema.isFileName_of_safeFileName? {s : Schema} {name : String}
    (h : s.safeFileName? = some name) : name = s.fileName ∧ IsFileName s.fileName := by
  rw [safeFileName?] at h
  split_ifs at h with hsafe
  simp only [Bool.or_eq_true, not_or, List.contains_iff_mem] at hsafe
  obtain ⟨⟨⟨⟨-, hslash⟩, -⟩, -⟩, -⟩ := hsafe
  exact ⟨(Option.some.inj h).symm, isFileName_of_not_mem hslash⟩

namespace FileTree

theorem wantsDirectory_join (outDir : Path) {name : String} (hname : IsFileName name) :
    wantsDirectory (outDir.join name) = false := by
  rw [wantsDirectory, Path.getLast?_join hname]
  cases hlast : name.toList.getLast? with
  | none => rfl
  | some c =>
    have hc : c ≠ '/' := fun hc => hname.single (hc ▸ List.mem_of_getLast? hlast)
    simpa using hc

theorem wayTo_join (outDir : Path) {name : String} (hname : IsFileName name) :
    wayTo (outDir.join name) = outDir.segments ++ [name] := by
  rw [wayTo, wantsDirectory_join outDir hname, Path.segments_join hname]
  simp

theorem origin_join (t : FileTree) (outDir : Path) {name : String} (hname : IsFileName name) :
    t.origin (outDir.join name) = t.origin outDir := by
  rw [origin, origin, Path.isAbsolute_join hname]

theorem parent_join (t : FileTree) (outDir : Path) {name : String} (hname : IsFileName name) :
    t.parent (outDir.join name) = (do
      refuse (outDir.join name)
      let dir ← t.follow outDir
      if t.directoryAt dir = false then throw .notADirectory
      else if nameLimit < (utf8 name).length then throw .nameTooLong
      else return (dir, some name)) := by
  have hdots : ¬(name = "." ∨ name = "..") := by
    rintro (hhere | hup)
    · exact hname.notHere hhere
    · exact hname.notUp hup
  rw [parent, Path.segments_join hname, List.getLast?_concat, List.dropLast_concat,
    origin_join t outDir hname, follow]
  refine bind_congr fun _ => bind_congr fun dir => ?_
  cases hdir : t.directoryAt dir with
  | false => rfl
  | true => simp only [Bool.not_true, Bool.false_eq_true, Bool.true_eq_false, hdots, if_false]

/-- Writing a file into the directory that a path leads to. -/
theorem write_join (t : FileTree) (outDir : Path) {name : String} (hname : IsFileName name)
    (content : List UInt8) : t.write (outDir.join name) content = (do
      refuse (outDir.join name)
      let dir ← t.follow outDir
      if t.directoryAt dir = false then throw .notADirectory
      else if nameLimit < (utf8 name).length then throw .nameTooLong
      else if t.directoryAt (dir ++ [name]) then throw .isADirectory
      else return t.putAt (dir ++ [name]) (.file content)) := by
  rw [write, parent_join t outDir hname, wantsDirectory_join outDir hname]
  simp only [bind_assoc, Bool.false_or]
  refine bind_congr fun _ => bind_congr fun dir => ?_
  split_ifs with hdir hlong hfree
  · rfl
  · rfl
  · exact if_pos hfree
  · exact if_neg hfree

theorem of_write_join {t written : FileTree} {outDir : Path} {name : String}
    (hname : IsFileName name) {content : List UInt8}
    (h : t.write (outDir.join name) content = .ok written) :
    ∃ dir, t.follow outDir = .ok dir ∧ t.directoryAt dir = true ∧
      t.directoryAt (dir ++ [name]) = false ∧
      written = t.putAt (dir ++ [name]) (.file content) ∧
      refuse (outDir.join name) = .ok () ∧ (utf8 name).length ≤ nameLimit := by
  rw [write_join t outDir hname] at h
  cases hrefuse : refuse (outDir.join name) with
  | error reason => simp [hrefuse, bind, Except.bind] at h
  | ok u =>
    cases hfollow : t.follow outDir with
    | error reason => simp [hrefuse, hfollow, bind, Except.bind] at h
    | ok dir =>
      simp only [hrefuse, hfollow, bind, Except.bind] at h
      by_cases hdir : t.directoryAt dir = false
      · rw [if_pos hdir] at h
        cases h
      by_cases hlong : nameLimit < (utf8 name).length
      · rw [if_neg hdir, if_pos hlong] at h
        cases h
      by_cases hfree : t.directoryAt (dir ++ [name]) = true
      · rw [if_neg hdir, if_neg hlong, if_pos hfree] at h
        cases h
      rw [if_neg hdir, if_neg hlong, if_neg hfree] at h
      exact ⟨dir, rfl, by simpa using hdir, by simpa using hfree, (Except.ok.inj h).symm, rfl,
        Nat.le_of_not_lt hlong⟩

/-- Publishing checks a schema and writes it under its name. -/
theorem write_of_publish {t written : FileTree} {check : Validator} {outDir path : Path}
    {s : Schema} (h : t.publish check outDir s = .ok (path, written)) :
    IsFileName s.fileName ∧ check s.value = none ∧ path = outDir.join s.fileName ∧
      t.write (outDir.join s.fileName) (utf8 s.text) = .ok written := by
  rw [publish] at h
  cases hsafe : s.safeFileName? with
  | none => simp [hsafe] at h
  | some name =>
    obtain ⟨rfl, hname⟩ := Schema.isFileName_of_safeFileName? hsafe
    cases hcheck : check s.value with
    | some reason => simp [hsafe, hcheck] at h
    | none =>
      cases hwrite : t.write (outDir.join s.fileName) (utf8 s.text) with
      | error reason => simp [hsafe, hcheck, hwrite] at h
      | ok result =>
        simp only [hsafe, hcheck, hwrite, Except.ok.injEq, Prod.mk.injEq] at h
        obtain ⟨rfl, rfl⟩ := h
        exact ⟨hname, rfl, rfl, rfl⟩

/-- A joined path is followed from the directory that its first part leads to. -/
theorem content?_find_join_eq {t : FileTree} {outDir : Path} {name : String}
    (hname : IsFileName name) {dir : Location} (hrefuse : refuse (outDir.join name) = .ok ())
    (hfollow : t.follow outDir = .ok dir) :
    (t.find (outDir.join name)).toOption.map Node.content? =
      (t.walk dir [name]).toOption.bind t.at? := by
  rw [follow] at hfollow
  rw [content?_find, hrefuse, wayTo_join outDir hname, origin_join t outDir hname, walk_append,
    hfollow]
  rfl

/-- What stands under a name in the directory that a path leads to is found by the joined path. -/
theorem content?_find_join {t : FileTree} {outDir : Path} {name : String} (hname : IsFileName name)
    {dir : Location} {found : Option (List UInt8)} (hrefuse : refuse (outDir.join name) = .ok ())
    (hshort : (utf8 name).length ≤ nameLimit) (hfollow : t.follow outDir = .ok dir)
    (hdir : t.directoryAt dir = true) (hat : t.at? (dir ++ [name]) = some found) :
    (t.find (outDir.join name)).toOption.map Node.content? = some found := by
  have hlast : t.walk dir [name] = .ok (dir ++ [name]) := by
    rw [walk_cons, hdir, hat, if_neg (by simp), if_neg hname.notHere, if_neg hname.notUp,
      if_neg (Nat.not_lt_of_le hshort)]
    rfl
  rw [content?_find_join_eq hname hrefuse hfollow, hlast]
  exact hat

theorem read_of_content? {t : FileTree} {p : Path} {content : List UInt8}
    (h : (t.find p).toOption.map Node.content? = some (some content)) :
    t.read p = .ok content := by
  cases hfind : t.find p with
  | error reason => simp [hfind, Except.toOption] at h
  | ok node =>
    rw [hfind] at h
    cases node with
    | directory entries => cases h
    | file bytes =>
      cases h
      rw [read, hfind]
      rfl

namespace Holds

variable {t now : FileTree} {outDir : Path} {outputs : List Output}
  (h : t.Holds outDir outputs now)
include h

/-- One more file may be written in a tree that holds outputs exactly if it may be written in the
tree without them. -/
theorem write_eq {name : String} (hname : IsFileName name) (content : List UInt8) :
    now.write (outDir.join name) content =
      (t.write (outDir.join name) content).bind fun _ => do
        let dir ← t.follow outDir
        return now.putAt (dir ++ [name]) (.file content) := by
  rw [write_join now outDir hname, write_join t outDir hname, h.follow_eq]
  cases refuse (outDir.join name) with
  | error reason => rfl
  | ok u =>
    cases t.follow outDir with
    | error reason => rfl
    | ok dir =>
      simp only [bind, Except.bind, h.directoryAt_eq]
      split_ifs <;> rfl

theorem putAt {dir : Location} (hfollow : t.follow outDir = .ok dir)
    (hdir : t.directoryAt dir = true) {stem : String}
    (hfree : t.directoryAt (dir ++ [stem ++ ".json"]) = false) (content : List UInt8) :
    t.Holds outDir (outputs ++ [(dir ++ [stem ++ ".json"], content)])
      (now.putAt (dir ++ [stem ++ ".json"]) (.file content)) where
  workingDirectory := h.workingDirectory
  at_eq place := by
    rw [← h.directoryAt_eq] at hdir hfree
    rw [at?_putAt_file hdir hfree, lastOutput?_concat, h.at_eq]
    split_ifs <;> rfl
  outputs_in o ho := by
    rw [List.mem_append, List.mem_singleton] at ho
    rcases ho with ho | rfl
    · exact h.outputs_in o ho
    · exact ⟨dir, stem, hfollow, hdir, rfl, hfree⟩

/-- Whether a schema is published, and the reason if it is not, does not depend on the outputs
that the tree holds; when it is, it becomes one more of them. -/
theorem publish (check : Validator) (s : Schema) :
    match t.publish check outDir s with
    | .error reason => now.publish check outDir s = .error reason
    | .ok (path, _) => path = outDir.join s.fileName ∧
      ∃ dir next, t.follow outDir = .ok dir ∧ now.publish check outDir s = .ok (path, next) ∧
        t.Holds outDir (outputs ++ [(dir ++ [s.fileName], utf8 s.text)]) next := by
  rw [FileTree.publish, FileTree.publish]
  cases hsafe : s.safeFileName? with
  | none => rfl
  | some name =>
    obtain ⟨rfl, hname⟩ := Schema.isFileName_of_safeFileName? hsafe
    cases check s.value with
    | some reason => rfl
    | none =>
      dsimp only
      rw [h.write_eq hname]
      cases hwrite : t.write (outDir.join s.fileName) (utf8 s.text) with
      | error reason => rfl
      | ok written =>
        obtain ⟨dir, hfollow, hdir, hfree, -⟩ := of_write_join hname hwrite
        refine ⟨rfl, dir, _, hfollow, ?_, h.putAt hfollow hdir hfree (utf8 s.text)⟩
        simp only [Except.bind, bind, hfollow]
        rfl

end Holds

/-- A JSON file that has been written into a directory is read back. -/
theorem read_of_write {t written : FileTree} {outDir : Path} {stem : String}
    (hname : IsFileName (stem ++ ".json")) {content : List UInt8}
    (h : t.write (outDir.join (stem ++ ".json")) content = .ok written) :
    written.read (outDir.join (stem ++ ".json")) = .ok content := by
  obtain ⟨dir, hfollow, hdir, hfree, rfl, hrefuse, hshort⟩ := of_write_join hname h
  have holds := (t.holds_self outDir).putAt hfollow hdir hfree content
  have hat := holds.at_eq (dir ++ [stem ++ ".json"])
  rw [List.nil_append, lastOutput?, List.reverse_singleton, List.lookup_cons_self] at hat
  rw [← holds.follow_eq] at hfollow
  rw [← holds.directoryAt_eq] at hdir
  exact read_of_content? (content?_find_join hname hrefuse hshort hfollow hdir hat)

end FileTree

end InterfaceSchema
