import InterfaceSchema.Proofs.Placements
import InterfaceSchema.Proofs.Preparation
import InterfaceSchema.Proofs.Repetition

/-!
# The settings file under a run

A run reads the settings of a project and then writes schemas, possibly into the directory of the
project itself. The settings file stays as it is all the same, unless an interface has its name, and
a project without settings gets none. Preparing the output directory adds nothing to a directory
that is there: settings that exist are kept, and without settings the output directory is that of
the project.

## Main definitions

* `OverwritesSettings` — whether a run publishes a schema in the place of the settings.
-/

namespace InterfaceSchema

/-! ## What a pass leaves at a place -/

section

variable {plan : Plan} {check : Validator} {t : FileTree} {dir : Location} {stem : String}

theorem Plan.placeOf?_eq_some_iff {i : Interface} :
    plan.placeOf? t i = some (dir ++ [stem ++ ".json"]) ↔
      t.follow plan.outDir = .ok dir ∧ i.name = stem := by
  rw [placeOf?]
  cases t.follow plan.outDir <;> simp

/-- At a place there is what the last interface published there leaves, or what was there before. -/
theorem Plan.exists_published_at? (plan : Plan) (check : Validator) (t : FileTree) :
    ∃ published : List Interface,
      (plan.generate check t).pass.written =
          published.map (fun i => plan.outDir.join (i.name ++ ".json")) ∧
        (∀ i ∈ published, IsFileName (i.name ++ ".json")) ∧
        ∀ place, (plan.generate check t).pass.tree.at? place =
          match published.reverse.find? fun i => plan.placeOf? t i = some place with
          | some i => some (some (plan.schemaBytes i))
          | none => t.at? place := by
  obtain ⟨published, hwritten, hnames, hseries⟩ := plan.exists_published_generate check t
  refine ⟨published, hwritten, hnames, fun place => ?_⟩
  have hinterfaces : (published.map Task.publish).filterMap Task.interface? = published := by
    rw [List.filterMap_map]
    exact List.filterMap_some
  rw [hseries.holds.at_eq, lastOutput?_filterMap, hinterfaces]
  generalize List.find? _ _ = found
  cases found <;> rfl

/-- A pass keeps what has the name of a JSON file, unless it lists this file in the output
directory. -/
theorem Plan.at?_generate_of_not_written
    (h : t.follow plan.outDir = .ok dir →
      plan.outDir.join (stem ++ ".json") ∉ (plan.generate check t).pass.written) :
    (plan.generate check t).pass.tree.at? (dir ++ [stem ++ ".json"]) =
      t.at? (dir ++ [stem ++ ".json"]) := by
  obtain ⟨published, hwritten, -, hat⟩ := plan.exists_published_at? check t
  rw [hat]
  cases hlast : published.reverse.find? fun i =>
      plan.placeOf? t i = some (dir ++ [stem ++ ".json"]) with
  | none => rfl
  | some i =>
    obtain ⟨hfollow, rfl⟩ := placeOf?_eq_some_iff.1 (by simpa using List.find?_some hlast)
    have hi : i ∈ published := List.mem_reverse.1 (List.mem_of_find?_eq_some hlast)
    refine absurd ?_ (h hfollow)
    rw [hwritten]
    exact List.mem_map.2 ⟨i, hi, rfl⟩

/-- A file that a pass lists holds the schema of an interface of its name. -/
theorem Plan.at?_generate_of_written (hfollow : t.follow plan.outDir = .ok dir)
    (hstem : IsFileName (stem ++ ".json"))
    (h : plan.outDir.join (stem ++ ".json") ∈ (plan.generate check t).pass.written) :
    ∃ i : Interface, i.name = stem ∧
      (plan.generate check t).pass.tree.at? (dir ++ [stem ++ ".json"]) =
        some (some (plan.schemaBytes i)) := by
  obtain ⟨published, hwritten, hnames, hat⟩ := plan.exists_published_at? check t
  rw [hwritten] at h
  obtain ⟨i, hi, hpath⟩ := List.mem_map.1 h
  have hname : i.name = stem := by simpa using Path.eq_of_join_eq (hnames i hi) hstem hpath
  -- it is the last one under this name whose bytes are there
  cases hlast : published.reverse.find? fun i =>
      plan.placeOf? t i = some (dir ++ [stem ++ ".json"]) with
  | none =>
    refine absurd ?_ (List.find?_eq_none.1 hlast i (List.mem_reverse.2 hi))
    simpa using placeOf?_eq_some_iff.2 ⟨hfollow, hname⟩
  | some j =>
    obtain ⟨-, hstem⟩ := placeOf?_eq_some_iff.1 (by simpa using List.find?_some hlast)
    refine ⟨j, hstem, ?_⟩
    rw [hat, hlast]

/-- Directories keep their place under a pass. -/
theorem Plan.follow_generate {p : Path} (h : t.follow p = .ok dir) :
    (plan.generate check t).pass.tree.follow p = .ok dir := by
  obtain ⟨_, hseries⟩ := t.exists_writeSeries_generate plan check
  rw [FileTree.follow, hseries.holds.origin_eq]
  exact hseries.holds.walk_of_walk h

end

/-! ## What the preparation leaves at the place of the settings -/

namespace FileTree

variable {t : FileTree} {root : Path} {dir : Location}

/-- The directory of a project cannot be made once more. -/
theorem makeDirectory_join_here (h : t.follow root = .ok dir) :
    ∃ reason, reason ≠ .notFound ∧ t.makeDirectory (root.join ".") = .error reason := by
  have hsegments : (root.join ".").segments = root.segments ++ ["."] :=
    Path.segments_join_of_not_mem (by decide) (by decide) root
  have horigin : t.origin (root.join ".") = t.origin root := by
    rw [origin, origin, Path.isAbsolute_join_of_relative (by decide)]
  have hne : (root.join ".").text ≠ "" := by
    intro he
    rw [Path.segments_eq, he] at hsegments
    simp at hsegments
  rw [follow] at h
  rw [makeDirectory, parent]
  cases hrefuse : refuse (root.join ".") with
  | error reason =>
    refine ⟨reason, ?_, rfl⟩
    rintro rfl
    have hempty : (utf8 (root.join ".").text).isEmpty = false := by
      rw [List.isEmpty_eq_false_iff]
      exact fun hnil => hne (utf8_injective hnil)
    simp only [refuse, refuseBytes, hempty, Bool.false_eq_true, if_false] at hrefuse
    split_ifs at hrefuse <;> cases hrefuse
  | ok u =>
    rw [hsegments, List.getLast?_concat, List.dropLast_concat, horigin]
    cases hdir : t.directoryAt dir with
    | false => exact ⟨.notADirectory, by decide, by simp [h, hdir, bind, Except.bind]; rfl⟩
    | true => exact ⟨.alreadyExists, by decide, by simp [h, hdir, bind, Except.bind]; rfl⟩

theorem makeDirectories_join_here (h : t.follow root = .ok dir) :
    (t.makeDirectories (root.join ".")).2 = t := by
  obtain ⟨reason, hreason, hmake⟩ := makeDirectory_join_here h
  rw [makeDirectories, ensureWithParents]
  by_cases hempty : (root.join ".").text.isEmpty = true
  · rw [if_pos hempty]
  · rw [if_neg hempty, hmake]
    cases reason with
    | notFound => exact absurd rfl hreason
    | _ => rfl

end FileTree

theorem isFileName_settings : IsFileName Settings.fileName :=
  ⟨by decide, by decide, by decide, by decide⟩

section

variable {t : FileTree} {root : Path} {dir : Location}

/-- A project without a settings file has the default settings. -/
theorem Settings.load_of_missing (h : t.follow root = .ok dir)
    (hnone : t.at? (dir ++ [fileName]) = none) : (load t root).1 = .ok {} := by
  have hnothing : (t.find (file root)).toOption.map Node.content? = none := by
    cases hrefuse : FileTree.refuse (file root) with
    | error reason =>
      rw [FileTree.content?_find, hrefuse]
    | ok u =>
      rw [file, FileTree.content?_find_join_eq isFileName_settings hrefuse h, FileTree.walk_cons,
        if_neg isFileName_settings.notHere, if_neg isFileName_settings.notUp]
      split_ifs
      · rfl
      · rfl
      · exact hnone
      · rfl
  have hmissing : t.pathExists (file root) = false := by
    rw [FileTree.pathExists]
    cases hfind : t.find (file root) with
    | error reason => rfl
    | ok node => simp [hfind, Except.toOption] at hnothing
  rw [load, hmissing]
  rfl

/-- Preparing the output directory neither makes a settings file in a project that is there nor
changes it. -/
theorem at?_prepared {settings : Settings} (hload : (Settings.load t root).1 = .ok settings)
    (h : t.follow root = .ok dir) :
    (t.makeDirectories (settings.resolve root).outDir).2.at? (dir ++ [Settings.fileName]) =
      t.at? (dir ++ [Settings.fileName]) := by
  cases hat : t.at? (dir ++ [Settings.fileName]) with
  | some found =>
    have hgrown := t.grown_makeDirectories (settings.resolve root).outDir
    rw [← hat]
    exact hgrown.at_of_isSome (by rw [hat]; rfl)
  | none =>
    rw [Settings.load_of_missing h hat] at hload
    obtain rfl := Except.ok.inj hload
    have hunchanged : (t.makeDirectories (root.join ".")).2 = t :=
      FileTree.makeDirectories_join_here h
    change (t.makeDirectories (root.join ".")).2.at? _ = none
    rw [hunchanged, hat]

/-- When a project has to be made, a directory on the way to it may get the name of the settings
file. -/
theorem at?_prepared_or {settings : Settings} (hload : (Settings.load t root).1 = .ok settings)
    (dir : Location) :
    let prepared := (t.makeDirectories (settings.resolve root).outDir).2
    let file := dir ++ [Settings.fileName]
    prepared.at? file = t.at? file ∨
      t.follow root ≠ .ok dir ∧ t.at? file = none ∧ prepared.at? file = some none := by
  intro prepared file
  have hgrown := t.grown_makeDirectories (settings.resolve root).outDir
  rcases hgrown.at_or file with hsame | ⟨hnone, hmade, -⟩
  · exact .inl hsame
  · refine .inr ⟨fun hroot => ?_, hnone, hmade⟩
    rw [at?_prepared hload hroot, hnone] at hmade
    cases hmade

end

namespace CommandLine

/-! ## Runs -/

/-- Whether a run publishes a schema in the place of the settings of a project: the output directory
is that of the project, and the name of the settings file is among those that are written. -/
def OverwritesSettings (t : FileTree) (root : Path) (placement : Option SignaturePlacement)
    (dir : Location) : Prop :=
  ∃ settings prepared, (Settings.load t root).1 = .ok settings ∧
    let plan := (settings.resolve root).keeping (placement.getD settings.placement)
    t.makeDirectories plan.outDir = (none, prepared) ∧ prepared.follow plan.outDir = .ok dir ∧
      plan.outDir.join Settings.fileName ∈ (plan.generate draft07 prepared).pass.written

section

variable {t prepared : FileTree} {root : Path} {settings : Settings} {dir : Location}
  (hload : (Settings.load t root).1 = .ok settings)
include hload

theorem overwritesSettings_iff {failure : Option AccessError}
    (hmade : t.makeDirectories (settings.resolve root).outDir = (failure, prepared))
    (placement : Option SignaturePlacement) : OverwritesSettings t root placement dir ↔
      failure = none ∧ prepared.follow (settings.resolve root).outDir = .ok dir ∧
        (settings.resolve root).outDir.join Settings.fileName ∈
          (((settings.resolve root).keeping (placement.getD settings.placement)).generate draft07
            prepared).pass.written := by
  constructor
  · rintro ⟨settings', prepared', hload', hmade', hfollow, hwritten⟩
    obtain rfl : settings = settings' := Except.ok.inj (hload.symm.trans hload')
    obtain ⟨rfl, rfl⟩ := Prod.mk.inj (hmade.symm.trans hmade')
    exact ⟨rfl, hfollow, hwritten⟩
  · rintro ⟨rfl, hfollow, hwritten⟩
    exact ⟨settings, prepared, hload, hmade, hfollow, hwritten⟩

theorem tree_runGenerate_of_prepare {reason : AccessError}
    (hmade : t.makeDirectories (settings.resolve root).outDir = (some reason, prepared))
    (placement : Option SignaturePlacement) :
    (runGenerate t root placement).tree = prepared := by
  rw [runGenerate_of_prepare hload hmade]
  rfl

theorem tree_runGenerate
    (hmade : t.makeDirectories (settings.resolve root).outDir = (none, prepared))
    (placement : Option SignaturePlacement) : (runGenerate t root placement).tree =
      (((settings.resolve root).keeping (placement.getD settings.placement)).generate draft07
        prepared).pass.tree := by
  let plan : Plan :=
    { settings.resolve root with placement := placement.getD (settings.resolve root).placement }
  cases hresult : plan.generate draft07 prepared with
  | mk failure last =>
    have hlast : (((settings.resolve root).keeping (placement.getD settings.placement)).generate
        draft07 prepared).pass.tree = last.tree := congrArg (·.pass.tree) hresult
    rw [hlast, runGenerate, hload]
    dsimp only
    rw [hmade]
    dsimp only
    rw [hresult]
    cases failure <;> rfl

section

variable {failure : Option AccessError} {placement : Option SignaturePlacement}
  (hmade : t.makeDirectories (settings.resolve root).outDir = (failure, prepared))
include hmade

/-- What is a directory after the preparation stays one. -/
theorem follow_runGenerate (h : prepared.follow root = .ok dir) :
    (runGenerate t root placement).tree.follow root = .ok dir := by
  cases failure with
  | some reason => rwa [tree_runGenerate_of_prepare hload hmade]
  | none =>
    rw [tree_runGenerate hload hmade]
    exact Plan.follow_generate h

theorem at?_runGenerate_of_not_overwrites (hnot : ¬OverwritesSettings t root placement dir) :
    (runGenerate t root placement).tree.at? (dir ++ [Settings.fileName]) =
      prepared.at? (dir ++ [Settings.fileName]) := by
  cases failure with
  | some reason => rw [tree_runGenerate_of_prepare hload hmade]
  | none =>
    rw [tree_runGenerate hload hmade]
    refine @Plan.at?_generate_of_not_written _ draft07 prepared dir "ischema" ?_
    intro hfollow hwritten
    exact hnot ((overwritesSettings_iff hload hmade placement).2 ⟨rfl, hfollow, hwritten⟩)

end

end

theorem at?_runGenerate_of_overwrites {t : FileTree} {root : Path}
    {placement : Option SignaturePlacement} {dir : Location}
    (h : OverwritesSettings t root placement dir) :
    ∃ (i : Interface) (kept : SignaturePlacement), i.name = "ischema" ∧
      (runGenerate t root placement).tree.at? (dir ++ [Settings.fileName]) =
        some (some (utf8 (i.compile kept).text)) := by
  obtain ⟨settings, prepared, hload, hmade, hfollow, hwritten⟩ := h
  obtain ⟨i, hname, hat⟩ :=
    @Plan.at?_generate_of_written _ draft07 prepared dir "ischema" hfollow isFileName_settings
      hwritten
  rw [tree_runGenerate hload hmade]
  exact ⟨i, _, hname, hat⟩

/-- A run keeps the settings file of a project, and makes none, unless it publishes the schema of an
interface in its place. When the directory of the project has to be made, a directory on the way to
it may get the name of the settings file. -/
theorem settings_runGenerate (t : FileTree) (root : Path) (placement : Option SignaturePlacement)
    (dir : Location) :
    let after := (runGenerate t root placement).tree
    let file := dir ++ [Settings.fileName]
    (t.follow root = .ok dir → after.follow root = .ok dir) ∧
      (¬OverwritesSettings t root placement dir → after.at? file = t.at? file ∨
        t.follow root ≠ .ok dir ∧ t.at? file = none ∧ after.at? file = some none) ∧
      (OverwritesSettings t root placement dir →
        ∃ (i : Interface) (kept : SignaturePlacement), i.name = "ischema" ∧
          after.at? file = some (some (utf8 (i.compile kept).text))) := by
  intro after file
  cases hload : (Settings.load t root).1 with
  | error reason =>
    have htree : after = t := by
      change (runGenerate t root placement).tree = t
      rw [runGenerate, hload]
      rfl
    refine ⟨fun hroot => ?_, fun _ => .inl ?_, at?_runGenerate_of_overwrites⟩
    · rwa [htree]
    · rw [htree]
  | ok settings =>
    have hgrown := t.grown_makeDirectories (settings.resolve root).outDir
    have hprepared := at?_prepared_or hload dir
    cases hmade : t.makeDirectories (settings.resolve root).outDir with
    | mk failure prepared =>
      rw [hmade] at hgrown hprepared
      refine ⟨fun hroot => ?_, fun hnot => ?_, at?_runGenerate_of_overwrites⟩
      · exact follow_runGenerate hload hmade (hgrown.follow_of_follow hroot)
      · have hkept : after.at? file = prepared.at? file :=
          at?_runGenerate_of_not_overwrites hload hmade hnot
        rw [hkept]
        exact hprepared

/-- A project whose schemas go to a directory of their own: an interface with the name of the
settings file does no harm. -/
theorem settings_runGenerate_apart :
    let text := "\x7b\"options\":\x7b\"rootDir\":\"src\",\"outDir\":\"out\"\x7d\x7d"
    let source := "/* SCHEMA */\ninterface ischema \x7b\n\x7d\n/* END SCHEMA */"
    let t : FileTree := ⟨.directory ⟨[("ischema.json", .file (utf8 text)),
      ("src", .directory ⟨[("a.ts", .file (utf8 source))]⟩)]⟩, []⟩
    (Settings.load t ⟨"."⟩).1 = .ok { rootDir := "src", outDir := "out" } ∧
      (runGenerate t ⟨"."⟩ none).tree.at? ["ischema.json"] = some (some (utf8 text)) := by
  intro text source t
  let plan : Plan := Settings.resolve { rootDir := "src", outDir := "out" } ⟨"."⟩
  have hload : (Settings.load t ⟨"."⟩).1 = .ok { rootDir := "src", outDir := "out" } := by
    decide +kernel
  have hroot : t.follow ⟨"."⟩ = .ok [] := by decide +kernel
  have hmade : t.makeDirectories plan.outDir = (none, (t.makeDirectories plan.outDir).2) := by
    refine Prod.ext ?_ rfl
    decide +kernel
  have hout : (t.makeDirectories plan.outDir).2.follow plan.outDir = .ok ["out"] := by
    decide +kernel
  have hnot : ¬OverwritesSettings t ⟨"."⟩ none [] := by
    intro hover
    have hfollow := ((overwritesSettings_iff hload hmade none).1 hover).2.1
    exact absurd (Except.ok.inj (hout.symm.trans hfollow)) (by decide)
  obtain ⟨-, hkept, -⟩ := settings_runGenerate t ⟨"."⟩ none []
  refine ⟨hload, ?_⟩
  rcases hkept hnot with hsame | ⟨hmissing, -⟩
  · exact hsame
  · exact absurd hroot hmissing

/-- A project whose schemas go to its own directory: the interface takes the place of the
settings. -/
theorem settings_runGenerate_overwritten :
    let text := "\x7b\"options\":\x7b\"rootDir\":\"src\"\x7d\x7d"
    let source := "/* SCHEMA */\ninterface ischema \x7b\n\x7d\n/* END SCHEMA */"
    let t : FileTree := ⟨.directory ⟨[("ischema.json", .file (utf8 text)),
      ("src", .directory ⟨[("a.ts", .file (utf8 source))]⟩)]⟩, []⟩
    (Settings.load t ⟨"."⟩).1 = .ok { rootDir := "src" } ∧ t.follow ⟨"."⟩ = .ok [] ∧
      t.at? ["ischema.json"] = some (some (utf8 text)) ∧
      (runGenerate t ⟨"."⟩ none).tree.at? ["ischema.json"] ≠ some (some (utf8 text)) := by
  intro text source t
  let plan : Plan := Settings.resolve { rootDir := "src" } ⟨"."⟩
  let i : Interface := .ofName "ischema"
  have hload : (Settings.load t ⟨"."⟩).1 = .ok { rootDir := "src" } := by decide +kernel
  have hroot : t.follow ⟨"."⟩ = .ok [] := by decide +kernel
  have hmade : t.makeDirectories plan.outDir = (none, t) := by
    refine Prod.ext ?_ (FileTree.makeDirectories_join_here hroot)
    decide +kernel
  have hjson : ∀ e ∈ plan.filter.extensions, normalizeExtension e ≠ ".json" := by decide
  have hfiles : t.discover plan.rootDir plan.filter = .ok [⟨"./src/a.ts"⟩] := by decide +kernel
  obtain ⟨hdone, -⟩ := @Plan.done_of_leaves plan t [⟨"./src/a.ts"⟩] (by decide +kernel)
  have hcarried : plan.carriedOut draft07 t = [.read ⟨"./src/a.ts"⟩, .publish i] := by
    rw [Plan.carriedOut, hfiles]
    exact hdone.trans (by decide +kernel)
  have hlast : plan.lastPublished? draft07 t ["ischema.json"] = some i := by
    rw [Plan.lastPublished?, hcarried]
    decide +kernel
  obtain ⟨-, -, hat⟩ := plan.generate_eq_carriedOut draft07 t hjson
  have hplace := hat ["ischema.json"]
  rw [hlast] at hplace
  refine ⟨hload, hroot, rfl, ?_⟩
  rw [tree_runGenerate hload hmade]
  change (plan.generate draft07 t).pass.tree.at? ["ischema.json"] ≠ _
  rw [hplace]
  have hbytes : plan.schemaBytes i ≠ utf8 text := by decide +kernel
  simpa using hbytes

/-- The way to a project that has to be made may go through a directory of this name. -/
example : (runGenerate ⟨.emptyDirectory, []⟩ ⟨"ischema.json/.."⟩ none).tree.at? ["ischema.json"] =
    some none := by
  decide +kernel

end CommandLine

end InterfaceSchema
