import InterfaceSchema.CommandLine.Command
import InterfaceSchema.Proofs.Encoding
import InterfaceSchema.Proofs.Outputs

/-!
# Preparing the output directory

Before sources are looked for, the output directory is made, and its parents as far as they are
missing. Nothing else is changed. So a missing source directory is reported, unless a directory
that has just been made is on the way to it.

## Main definitions

* `FileTree.Grown` — a tree to which directories have been added.
-/

namespace InterfaceSchema

namespace FileTree

variable {t mid now : FileTree} {p : Path} {paths others : List Path}

/-! ## Growing trees -/

/-- Where everything that stood in a tree has been kept, every way still leads where it led. -/
theorem walk_of_kept {names : List String} {place last : Location}
    (hkept : ∀ q, (t.at? q).isSome = true → now.at? q = t.at? q)
    (hwalk : t.walk place names = .ok last) : now.walk place names = .ok last := by
  refine walk_of_walk hwalk (fun _ q _ _ hdir => ?_) fun _ q _ _ hsome => ?_
  · rw [directoryAt_eq, decide_eq_true_iff] at hdir ⊢
    rw [hkept q (by simp [hdir]), hdir]
  · rwa [hkept q hsome]

/-- A tree to which directories have been added, each where one of the paths leads. -/
structure Grown (t : FileTree) (paths : List Path) (now : FileTree) : Prop where
  workingDirectory : now.workingDirectory = t.workingDirectory
  at_or (place : Location) : now.at? place = t.at? place ∨
    t.at? place = none ∧ now.at? place = some none ∧ ∃ p ∈ paths, now.follow p = .ok place

theorem grown_self (t : FileTree) (paths : List Path) : t.Grown paths t :=
  ⟨rfl, fun _ => .inl rfl⟩

namespace Grown

theorem origin_eq (h : t.Grown paths now) (p : Path) : now.origin p = t.origin p := by
  rw [origin, origin, h.workingDirectory]

theorem at_of_isSome (h : t.Grown paths now) {place : Location}
    (hsome : (t.at? place).isSome = true) : now.at? place = t.at? place := by
  obtain hsame | ⟨hnone, -⟩ := h.at_or place
  · exact hsame
  · simp [hnone] at hsome

/-- Every path that led somewhere still leads there. -/
theorem follow_of_follow (h : t.Grown paths now) {place : Location}
    (hfollow : t.follow p = .ok place) : now.follow p = .ok place := by
  rw [follow, h.origin_eq]
  exact walk_of_kept (fun _ => h.at_of_isSome) hfollow

theorem mono (h : t.Grown paths now) (hpaths : ∀ p ∈ paths, p ∈ others) : t.Grown others now := by
  refine ⟨h.workingDirectory, fun place => (h.at_or place).imp_right ?_⟩
  rintro ⟨hnone, hdir, q, hq, hfollow⟩
  exact ⟨hnone, hdir, q, hpaths q hq, hfollow⟩

theorem trans (h : t.Grown paths mid) (h' : mid.Grown paths now) : t.Grown paths now := by
  refine ⟨h'.workingDirectory.trans h.workingDirectory, fun place => ?_⟩
  obtain hsame | ⟨hnone, hdir, q, hq, hfollow⟩ := h.at_or place
  · rw [← hsame]
    exact h'.at_or place
  · have hkept : now.at? place = mid.at? place := h'.at_of_isSome (by simp [hdir])
    exact .inr ⟨hnone, hkept.trans hdir, q, hq, h'.follow_of_follow hfollow⟩

end Grown

/-! ## Making directories -/

/-- Where the last name of a path is to be found. -/
theorem of_parent {place : Location} {name : String}
    (h : t.parent p = .ok (place, some name)) : ∃ front, p.segments = front ++ [name] ∧
      t.walk (t.origin p) front = .ok place ∧ t.directoryAt place = true ∧ name ≠ "." ∧
      name ≠ ".." ∧ (utf8 name).length ≤ nameLimit := by
  rw [parent] at h
  cases hrefuse : refuse p with
  | error reason => simp [hrefuse, bind, Except.bind] at h
  | ok u =>
    rcases List.eq_nil_or_concat' p.segments with hnil | ⟨front, last, hsegments⟩
    · simp [hrefuse, hnil, bind, Except.bind, pure, Except.pure] at h
    · refine ⟨front, ?_⟩
      rw [hsegments] at h ⊢
      simp only [hrefuse, bind, Except.bind, List.getLast?_concat, List.dropLast_concat] at h
      cases hwalk : t.walk (t.origin p) front with
      | error reason => simp [hwalk] at h
      | ok dir =>
        simp only [hwalk] at h
        split_ifs at h with hdir hdots hlong
        · simp [pure, Except.pure] at h
        · simp only [pure, Except.pure, Except.ok.injEq, Prod.mk.injEq, Option.some.injEq] at h
          obtain ⟨rfl, rfl⟩ := h
          exact ⟨rfl, rfl, by simpa using hdir, fun h => hdots (.inl h), fun h => hdots (.inr h),
            Nat.le_of_not_lt hlong⟩

/-- A directory that is added under the last name of a path is where the path leads. -/
theorem grown_putAt_emptyDirectory {front : List String} {dir : Location} {name : String}
    (hsegments : p.segments = front ++ [name]) (hwalk : t.walk (t.origin p) front = .ok dir)
    (hdir : t.directoryAt dir = true) (hnone : t.at? (dir ++ [name]) = none) (hhere : name ≠ ".")
    (hup : name ≠ "..") (hshort : (utf8 name).length ≤ nameLimit) :
    t.Grown [p] (t.putAt (dir ++ [name]) .emptyDirectory) := by
  set now := t.putAt (dir ++ [name]) .emptyDirectory
  have hat : ∀ place, now.at? place = if place = dir ++ [name] then some none else t.at? place :=
    at?_putAt_emptyDirectory hdir hnone
  have hmade : now.at? (dir ++ [name]) = some none := by rw [hat, if_pos rfl]
  have hkept : ∀ q, (t.at? q).isSome = true → now.at? q = t.at? q := by
    intro q hq
    rw [hat, if_neg]
    rintro rfl
    simp [hnone] at hq
  have hstep : now.walk dir [name] = .ok (dir ++ [name]) := by
    rw [directoryAt_eq, decide_eq_true_iff] at hdir
    have hnow : now.directoryAt dir = true := by simp [directoryAt_eq, hkept, hdir]
    rw [walk_cons, hnow, hmade, if_neg (by simp), if_neg hhere, if_neg hup,
      if_neg (Nat.not_lt_of_le hshort)]
    rfl
  have hfollow : now.follow p = .ok (dir ++ [name]) := by
    have hfront : now.walk (now.origin p) front = .ok dir := walk_of_kept hkept hwalk
    rw [follow, hsegments, walk_append, hfront]
    exact hstep
  refine ⟨rfl, fun place => ?_⟩
  by_cases hplace : place = dir ++ [name]
  · subst hplace
    exact .inr ⟨hnone, hmade, p, by simp, hfollow⟩
  · rw [hat, if_neg hplace]
    exact .inl rfl

theorem grown_of_makeDirectory (h : t.makeDirectory p = .ok now) : t.Grown [p] now := by
  rw [makeDirectory] at h
  cases hparent : t.parent p with
  | error reason => simp [hparent, bind, Except.bind] at h
  | ok found =>
    obtain ⟨dir, _ | name⟩ := found
    · simp [hparent, bind, Except.bind] at h
    obtain ⟨front, hsegments, hwalk, hdir, hhere, hup, hshort⟩ := of_parent hparent
    simp only [hparent, bind, Except.bind] at h
    split_ifs at h with hfree
    obtain rfl := Except.ok.inj h
    have hnone : t.at? (dir ++ [name]) = none := by simpa [isSome_get?] using hfree
    exact grown_putAt_emptyDirectory hsegments hwalk hdir hnone hhere hup hshort

theorem grown_ensureDirectory (t : FileTree) (p : Path) : t.Grown [p] (t.ensureDirectory p).2 := by
  rw [ensureDirectory]
  cases h : t.makeDirectory p with
  | error reason => exact t.grown_self [p]
  | ok made => exact grown_of_makeDirectory h

theorem grown_ensureWithParents (t : FileTree) (paths : List Path) :
    t.Grown paths (t.ensureWithParents paths).2 := by
  induction paths with
  | nil => exact t.grown_self []
  | cons p parents ih =>
    have hparents : t.Grown (p :: parents) (t.ensureWithParents parents).2 :=
      ih.mono fun q hq => List.mem_cons_of_mem p hq
    have hp : ∀ q ∈ [p], q ∈ p :: parents := by simp
    rw [ensureWithParents]
    split
    · exact t.grown_self _
    · split
      · next made h => exact (grown_of_makeDirectory h).mono hp
      · split
        · next made h =>
          rw [h] at hparents
          exact hparents.trans ((made.grown_ensureDirectory p).mono hp)
        · exact hparents
      · exact t.grown_self _

theorem grown_makeDirectories (t : FileTree) (p : Path) :
    t.Grown (p :: p.ancestors) (t.makeDirectories p).2 :=
  t.grown_ensureWithParents _

/-! ## Finding directories -/

theorem isDirectory_iff : t.isDirectory p = true ↔ refuse p = .ok () ∧
    ∃ place, t.walk (t.origin p) (wayTo p) = .ok place ∧ t.directoryAt place = true := by
  have hcontent : t.isDirectory p = true ↔
      (t.find p).toOption.map Node.content? = some none := by
    rw [isDirectory]
    cases t.find p with
    | error reason => simp [Except.toOption]
    | ok node => cases node <;> simp [Except.toOption, Node.isDirectory, Node.content?]
  rw [hcontent, content?_find]
  cases refuse p with
  | error reason => simp
  | ok u =>
    cases t.walk (t.origin p) (wayTo p) with
    | error reason => simp [Except.toOption]
    | ok place => simp [Except.toOption, directoryAt_eq]

/-- There is nothing to be found where there is no directory. -/
theorem discover_of_not_directory (h : t.isDirectory p = false) (f : SourceFilter) :
    t.discover p f = .error (.notFound p) := by
  have hshown : Path.ofBytes (utf8 p.text) = p := congrArg Path.mk (Utf8.lossyText_utf8 p.text)
  have hreason : Except.error (SourceError.notFound (.ofBytes (utf8 p.text))) =
      (.error (.notFound p) : Except SourceError (List Path)) := by rw [hshown]
  rw [isDirectory] at h
  rw [discover]
  cases hfind : t.find p with
  | error reason => exact hreason
  | ok node =>
    rw [hfind] at h
    cases node with
    | file content => exact hreason
    | directory entries => cases h

/-- The way to a directory that was missing passes one that has been added. -/
theorem Grown.exists_new_of_isDirectory (h : t.Grown paths now) (hmissing : t.isDirectory p = false)
    (hdirectory : now.isDirectory p = true) :
    ∃ q ∈ paths, ∃ front place, front <+: wayTo p ∧
      now.walk (now.origin p) front = .ok place ∧ now.follow q = .ok place ∧
      t.at? place = none := by
  by_contra hnew
  push Not at hnew
  -- if nothing on the way is new, the way was there before
  obtain ⟨hrefuse, last, hwalk, hlast⟩ := isDirectory_iff.1 hdirectory
  have hold : ∀ front place, front <+: wayTo p → now.walk (now.origin p) front = .ok place →
      t.at? place = now.at? place := by
    intro front place hfront hplace
    obtain hsame | ⟨hnone, -, q, hq, hfollow⟩ := h.at_or place
    · exact hsame.symm
    · exact absurd hnone (hnew q hq front place hfront hplace hfollow)
  have hdir : ∀ front place, front <+: wayTo p → now.walk (now.origin p) front = .ok place →
      now.directoryAt place = true → t.directoryAt place = true := by
    intro front place hfront hplace hdir
    rwa [directoryAt_eq, hold front place hfront hplace, ← directoryAt_eq]
  have hback : t.walk (now.origin p) (wayTo p) = .ok last := by
    refine walk_of_walk hwalk hdir fun front place hfront hplace hsome => ?_
    rwa [hold front place hfront hplace]
  rw [h.origin_eq] at hback
  have hfound : t.isDirectory p = true :=
    isDirectory_iff.2 ⟨hrefuse, last, hback, hdir _ last (List.prefix_refl _) hwalk hlast⟩
  rw [hmissing] at hfound
  cases hfound

end FileTree

namespace CommandLine

/-! ## Missing source directories -/

section

variable {t prepared : FileTree} {root : Path} {settings : Settings}
  (hload : (Settings.load t root).1 = .ok settings)
include hload

theorem runGenerate_of_prepare {reason : AccessError}
    (hmade : t.makeDirectories (settings.resolve root).outDir = (some reason, prepared))
    (placement : Option SignaturePlacement) : runGenerate t root placement =
      fail (.prepare (settings.resolve root).outDir reason) prepared := by
  rw [runGenerate, hload]
  dsimp only
  rw [hmade]

theorem runGenerate_of_not_directory
    (hmade : t.makeDirectories (settings.resolve root).outDir = (none, prepared))
    (hmissing : prepared.isDirectory (settings.resolve root).rootDir = false)
    (placement : Option SignaturePlacement) : runGenerate t root placement =
      fail (.generate (.discover (.notFound (settings.resolve root).rootDir))) prepared := by
  rw [runGenerate, hload]
  dsimp only
  rw [hmade]
  dsimp only
  rw [Plan.generate, FileTree.discover_of_not_directory hmissing]
  rfl

/-- A source directory that is missing is reported, and nothing is generated, unless the output
directory or one that it is in had to be made and is on the way to the source directory. -/
theorem runGenerate_of_missing
    (hmissing : t.isDirectory (settings.resolve root).rootDir = false)
    (placement : Option SignaturePlacement) :
    let plan := settings.resolve root
    let made := t.makeDirectories plan.outDir
    (runGenerate t root placement = match made.1 with
      | some reason => fail (.prepare plan.outDir reason) made.2
      | none => fail (.generate (.discover (.notFound plan.rootDir))) made.2) ∨
    made.1 = none ∧ made.2.isDirectory plan.rootDir = true ∧
      ∃ p ∈ plan.outDir :: plan.outDir.ancestors, ∃ front place,
        front <+: FileTree.wayTo plan.rootDir ∧
        made.2.walk (made.2.origin plan.rootDir) front = .ok place ∧
        made.2.follow p = .ok place ∧ t.at? place = none := by
  dsimp only
  have hgrown := t.grown_makeDirectories (settings.resolve root).outDir
  cases hmade : t.makeDirectories (settings.resolve root).outDir with
  | mk failure prepared =>
    rw [hmade] at hgrown
    cases failure with
    | some reason => exact .inl (runGenerate_of_prepare hload hmade placement)
    | none =>
      cases hroot : prepared.isDirectory (settings.resolve root).rootDir with
      | true => exact .inr ⟨rfl, rfl, hgrown.exists_new_of_isDirectory hmissing hroot⟩
      | false => exact .inl (runGenerate_of_not_directory hload hmade hroot placement)

end

/-- A project without settings in a directory that is missing: the output directory cannot be
made. -/
theorem runGenerate_of_missing_project :
    let t : FileTree := ⟨.emptyDirectory, []⟩
    t.isDirectory (({} : Settings).resolve ⟨"new"⟩).rootDir = false ∧
      runGenerate t ⟨"new"⟩ none = fail (.prepare ⟨"new/."⟩ .notFound) t := by
  intro t
  have hload : (Settings.load t ⟨"new"⟩).1 = .ok {} := by decide +kernel
  have hmissing : t.isDirectory (({} : Settings).resolve ⟨"new"⟩).rootDir = false := by
    decide +kernel
  have houtDir : (({} : Settings).resolve ⟨"new"⟩).outDir = ⟨"new/."⟩ := by decide +kernel
  have hmade : t.makeDirectories (({} : Settings).resolve ⟨"new"⟩).outDir =
      (some .notFound, t) := by rfl
  refine ⟨hmissing, ?_⟩
  rcases runGenerate_of_missing hload hmissing none with hrun | ⟨hnone, -⟩
  · rwa [hmade, houtDir] at hrun
  · rw [hmade] at hnone
    cases hnone

/-- A project root that goes through a missing directory and back: this directory is made, and
nothing is reported. -/
theorem runGenerate_missing_unreported :
    let t : FileTree := ⟨.emptyDirectory, []⟩
    (Settings.load t ⟨"new/.."⟩).1 = .ok {} ∧
      t.isDirectory (({} : Settings).resolve ⟨"new/.."⟩).rootDir = false ∧
      (runGenerate t ⟨"new/.."⟩ none).exitCode = 0 ∧
      (runGenerate t ⟨"new/.."⟩ none).output = "Compiled 0 schema(s) from 0 file(s)\n" := by
  decide +kernel

end CommandLine

end InterfaceSchema
