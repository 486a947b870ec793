import InterfaceSchema.Proofs.Collisions
import InterfaceSchema.Proofs.Documents
import InterfaceSchema.Proofs.Reprinting
import InterfaceSchema.Proofs.Verdict

/-!
# Where index signatures are kept

A pass does the same wherever it keeps index signatures. The name of a schema and the verdict on it
do not depend on this, and whether a file can be written does not depend on its bytes. So the same
tasks are carried out, up to the same failure, and the same files are written. A file differs only
if it holds the schema of an interface with index signatures in a nested object; those of the
outermost level are always kept in one place.

## Main definitions

* `Interface.NestsSignatures` — whether there are index signatures below the outermost level.
* `Plan.carriedOut` — the tasks that a pass carries out.
* `Plan.lastPublished?` — the interface whose schema a pass leaves at a place.
-/

namespace InterfaceSchema

/-- Whether an object nested in an interface has an index signature. -/
def Interface.NestsSignatures (i : Interface) : Prop :=
  ∃ level ∈ memberLevels i.members.entries, level.signatures ≠ []

instance (i : Interface) : Decidable i.NestsSignatures :=
  inferInstanceAs (Decidable (∃ level ∈ memberLevels i.members.entries, level.signatures ≠ []))

/-- The plan with index signatures kept elsewhere. -/
def Plan.keeping (plan : Plan) (placement : SignaturePlacement) : Plan :=
  { plan with placement }

/-! ## Schemas of both kinds -/

theorem signatureText_eq_none_iff {signatures : List IndexSignature} :
    signatureText signatures = none ↔ signatures = [] := by
  cases signatures <;> simp [signatureText]

mutual

/-- Without index signatures there is nothing to keep in one place or the other. -/
theorem Interface.compileNested_legacy_eq_uniform_iff : ∀ i : Interface,
    i.compileNested .legacy = i.compileNested .uniform ↔ ∀ level ∈ i.levels, level.signatures = []
  | ⟨name, ⟨members⟩, signatures⟩ => by
    have hmembers := compileMembers_legacy_eq_uniform_iff members
    rw [Interface.levels_eq, List.forall_mem_cons, ← hmembers]
    simp only [Interface.compileNested, PropertySchema.mk.injEq, Option.some.injEq,
      FieldMap.mk.injEq, true_and, eq_comm (a := none), signatureText_eq_none_iff]
    constructor
    · rintro ⟨-, hsame, hnone⟩
      exact ⟨hnone, hsame⟩
    · rintro ⟨hnone, hsame⟩
      rw [hnone]
      exact ⟨rfl, hsame, rfl⟩

theorem TypeExpr.compile_legacy_eq_uniform_iff : ∀ type : TypeExpr,
    type.compile .legacy = type.compile .uniform ↔ ∀ level ∈ type.levels, level.signatures = []
  | .named _ => ⟨fun _ _ h => absurd h List.not_mem_nil, fun _ => rfl⟩
  | .object inner => inner.compileNested_legacy_eq_uniform_iff

theorem compileMembers_legacy_eq_uniform_iff : ∀ members : List (String × TypeExpr),
    compileMembers .legacy members = compileMembers .uniform members ↔
      ∀ level ∈ memberLevels members, level.signatures = []
  | [] => ⟨fun _ _ h => absurd h List.not_mem_nil, fun _ => rfl⟩
  | (key, type) :: rest => by
    rw [compileMembers, compileMembers, List.cons.injEq, Prod.mk.injEq,
      type.compile_legacy_eq_uniform_iff, compileMembers_legacy_eq_uniform_iff rest, memberLevels,
      List.forall_mem_append]
    simp only [true_and]

end

/-- The schemas of both kinds are the same unless an index signature is nested. -/
theorem Interface.compile_legacy_eq_uniform_iff (i : Interface) :
    i.compile .legacy = i.compile .uniform ↔ ¬i.NestsSignatures := by
  have hnested : ¬i.NestsSignatures ↔
      compileMembers .legacy i.members.entries = compileMembers .uniform i.members.entries := by
    rw [compileMembers_legacy_eq_uniform_iff]
    simp [NestsSignatures]
  rw [hnested]
  constructor
  · intro h
    exact FieldMap.mk.inj (congrArg Schema.properties h)
  · intro h
    rw [compile, compile, h]

/-- The files of both kinds are the same unless an index signature is nested. -/
theorem Interface.text_legacy_eq_uniform_iff (i : Interface) :
    utf8 (i.compile .legacy).text = utf8 (i.compile .uniform).text ↔ ¬i.NestsSignatures := by
  rw [← compile_legacy_eq_uniform_iff]
  exact ⟨Schema.text_injective, fun h => by rw [h]⟩

/-- The verdict on a schema does not depend on where index signatures are kept. -/
theorem draft07_placement {i : Interface} (hi : i.DistinctMembers)
    (placement other : SignaturePlacement) :
    draft07 (i.compile placement).value = draft07 (i.compile other).value := by
  have hfirst := i.finds_firstViolation? placement hi
  have hsecond := i.finds_firstViolation? other hi
  rw [draft07, draft07, hfirst.unique hsecond (i.leaf_eq_of_path_eq hi)]

/-- A schema is accepted if all types of members are types of draft-07. -/
theorem draft07_of_leaves {i : Interface} (hi : i.DistinctMembers)
    (hleaves : ∀ l ∈ i.leaves, l.token ∈ simpleTypes) (placement : SignaturePlacement) :
    draft07 (i.compile placement).value = none := by
  rw [draft07, Option.map_eq_none_iff]
  exact (i.finds_firstViolation? placement hi).eq_none_iff.2 hleaves

theorem distinctMembers_of_mem_parseSource {g : Grammar} {text : String} {i : Interface}
    (h : i ∈ (parseSource g text).1) : i.DistinctMembers := by
  obtain ⟨b, hb, rfl⟩ : ∃ b ∈ (extract g text).blocks, (b.interface g).1 = i := by
    simpa [parseSource] using h
  obtain ⟨-, hformed⟩ := Block.formed_interface (g := g) (isPlain_of_mem_blocks hb).2
  exact fun level hlevel => (hformed level hlevel).readable.distinct

/-! ## Publishing schemas of both kinds -/

namespace FileTree

/-- Whether a file can be written does not depend on its bytes. -/
theorem write_of_error {t : FileTree} {p : Path} {content : List UInt8} {reason : AccessError}
    (h : t.write p content = .error reason) (other : List UInt8) :
    t.write p other = .error reason := by
  rw [write] at h ⊢
  cases hparent : t.parent p with
  | error reason' => rwa [hparent] at h
  | ok found =>
    rw [hparent] at h
    obtain ⟨place, name?⟩ := found
    cases name? with
    | none => exact h
    | some name =>
      simp only [bind, Except.bind] at h ⊢
      split_ifs at h ⊢
      · exact h
      · cases h

theorem exists_write {t written : FileTree} {p : Path} {content : List UInt8}
    (h : t.write p content = .ok written) (other : List UInt8) :
    ∃ written', t.write p other = .ok written' := by
  cases hother : t.write p other with
  | error reason =>
    rw [write_of_error hother content] at h
    cases h
  | ok written' => exact ⟨written', rfl⟩

/-- Schemas of one title on which the verdict is the same are published at the same path, or refused
for the same reason. -/
theorem publish_congr {check : Validator} {s s' : Schema} (htitle : s.title = s'.title)
    (hcheck : check s.value = check s'.value) (t : FileTree) (outDir : Path) :
    (t.publish check outDir s).map Prod.fst = (t.publish check outDir s').map Prod.fst := by
  have hname : s.safeFileName? = s'.safeFileName? := by
    rw [Schema.safeFileName?, Schema.safeFileName?, Schema.fileName, Schema.fileName, htitle]
  rw [publish, publish, hname, htitle, hcheck]
  cases s'.safeFileName? with
  | none => rfl
  | some name =>
    cases check s'.value with
    | some reason => rfl
    | none =>
      dsimp only
      cases hwrite : t.write (outDir.join name) (utf8 s.text) with
      | error reason => rw [write_of_error hwrite]
      | ok written =>
        obtain ⟨written', hwrite'⟩ := exists_write hwrite (utf8 s'.text)
        rw [hwrite']
        rfl

end FileTree

/-! ## Tasks -/

/-- The interface that a task publishes. -/
def Task.interface? : Task → Option Interface
  | .read _ => none
  | .publish i => some i

namespace Plan

variable (plan : Plan) (check : Validator) (t : FileTree)

/-- The tasks that a pass carries out, in order. -/
def carriedOut : List Task :=
  match t.discover plan.rootDir plan.filter with
  | .ok files => plan.done check t (plan.tasks t files)
  | .error _ => []

/-- The place of an interface's schema, if there is an output directory. -/
def placeOf? (i : Interface) : Option Location :=
  match t.follow plan.outDir with
  | .ok dir => some (dir ++ [i.name ++ ".json"])
  | .error _ => none

/-- The interface whose schema a pass publishes last at a place, if it publishes any there. -/
def lastPublished? (place : Location) : Option Interface :=
  ((plan.carriedOut check t).filterMap Task.interface?).reverse.find? fun i =>
    plan.placeOf? t i = some place

end Plan

section

variable {plan : Plan} {t : FileTree}

theorem Task.failure?_publish (check : Validator) (i : Interface) :
    (Task.publish i).failure? plan check t =
      match (t.publish check plan.outDir (i.compile plan.placement)).map Prod.fst with
      | .error reason => some (.publish reason)
      | .ok _ => none := by
  rw [failure?]
  cases t.publish check plan.outDir (i.compile plan.placement) <;> rfl

/-- Nothing but the verdict counts of the check. -/
theorem Task.failure?_acceptAll {check : Validator} {i : Interface}
    (h : check (i.compile plan.placement).value = none) :
    (Task.publish i).failure? plan check t = (Task.publish i).failure? plan acceptAll t := by
  rw [failure?, failure?, FileTree.publish, FileTree.publish, h]
  rfl

theorem Plan.distinctMembers_of_mem_tasks {files : List Path} {i : Interface}
    (h : .publish i ∈ plan.tasks t files) : i.DistinctMembers := by
  obtain ⟨source, -, hi⟩ := List.mem_flatMap.1 (Plan.publish_mem_tasks.1 h)
  rw [publications] at hi
  split at hi
  · exact distinctMembers_of_mem_parseSource (List.mem_of_mem_filter hi)
  · cases hi

/-- A task of a pass fails for the same reason wherever index signatures are kept. -/
theorem Task.failure?_keeping {files : List Path} {task : Task} (h : task ∈ plan.tasks t files)
    (placement : SignaturePlacement) :
    task.failure? (plan.keeping placement) draft07 t = task.failure? plan draft07 t := by
  cases task with
  | read source => rfl
  | publish i =>
    have hdistinct : i.DistinctMembers := Plan.distinctMembers_of_mem_tasks h
    have hverdict := draft07_placement hdistinct placement plan.placement
    have hpublish : (t.publish draft07 plan.outDir (i.compile placement)).map Prod.fst =
        (t.publish draft07 plan.outDir (i.compile plan.placement)).map Prod.fst :=
      FileTree.publish_congr (by rfl) hverdict t plan.outDir
    rw [failure?_publish, failure?_publish, ← hpublish]
    rfl

/-- Tasks that fail alike are carried out alike. -/
theorem Plan.done_congr {other : Plan} {check check' : Validator} {tasks : List Task}
    (h : ∀ task ∈ tasks, task.failure? other check' t = task.failure? plan check t) :
    other.done check' t tasks = plan.done check t tasks ∧
      tasks.findSome? (·.failure? other check' t) = tasks.findSome? (·.failure? plan check t) := by
  induction tasks with
  | nil => exact ⟨rfl, rfl⟩
  | cons task rest ih =>
    obtain ⟨htask, hrest⟩ := List.forall_mem_cons.1 h
    obtain ⟨hdone, hfailure⟩ := ih hrest
    rw [List.findSome?_cons, List.findSome?_cons, htask]
    cases hfail : task.failure? plan check t with
    | some reason =>
      rw [done_cons_of_failed (htask.trans hfail), done_cons_of_failed hfail]
      exact ⟨rfl, rfl⟩
    | none =>
      rw [done_cons (htask.trans hfail), done_cons hfail, hdone]
      exact ⟨rfl, hfailure⟩

/-- Interfaces with no other types than those of draft-07 are published as without a check. -/
theorem Plan.done_of_leaves {files : List Path}
    (h : ∀ i ∈ (plan.tasks t files).filterMap Task.interface?, ∀ l ∈ i.leaves,
      l.token ∈ simpleTypes) :
    plan.done draft07 t (plan.tasks t files) = plan.done acceptAll t (plan.tasks t files) ∧
      (plan.tasks t files).findSome? (·.failure? plan draft07 t) =
        (plan.tasks t files).findSome? (·.failure? plan acceptAll t) := by
  refine done_congr fun task htask => ?_
  cases task with
  | read source => rfl
  | publish i =>
    have hleaves := h i (List.mem_filterMap.2 ⟨_, htask, rfl⟩)
    apply Task.failure?_acceptAll
    exact draft07_of_leaves (distinctMembers_of_mem_tasks htask) hleaves plan.placement

theorem Plan.carriedOut_keeping (plan : Plan) (t : FileTree) (placement : SignaturePlacement) :
    (plan.keeping placement).carriedOut draft07 t = plan.carriedOut draft07 t := by
  have hdiscover : t.discover (plan.keeping placement).rootDir (plan.keeping placement).filter =
      t.discover plan.rootDir plan.filter := rfl
  rw [carriedOut, carriedOut, hdiscover]
  cases t.discover plan.rootDir plan.filter with
  | error reason => rfl
  | ok files => exact (done_congr fun task htask => Task.failure?_keeping htask placement).1

theorem Plan.lastPublished?_keeping (plan : Plan) (t : FileTree) (placement : SignaturePlacement)
    (place : Location) : (plan.keeping placement).lastPublished? draft07 t place =
      plan.lastPublished? draft07 t place := by
  rw [lastPublished?, lastPublished?, carriedOut_keeping]
  rfl

/-! ## Files -/

theorem Task.output?_eq (task : Task) : task.output? plan t =
    task.interface?.bind fun i =>
      (plan.placeOf? t i).map fun place => (place, plan.schemaBytes i) := by
  cases task with
  | read source => rfl
  | publish i =>
    rw [output?, interface?, Option.bind_some, Plan.placeOf?]
    cases t.follow plan.outDir <;> rfl

/-- What tasks write last at a place is the schema that they publish last there. -/
theorem lastOutput?_filterMap (tasks : List Task) (place : Location) :
    lastOutput? (tasks.filterMap (·.output? plan t)) place =
      ((tasks.filterMap Task.interface?).reverse.find? fun i =>
        plan.placeOf? t i = some place).map plan.schemaBytes := by
  induction tasks with
  | nil => rfl
  | cons task rest ih =>
    cases task with
    | read source =>
      have hinterface : (Task.read source).interface? = none := rfl
      have houtput : (Task.read source).output? plan t = none := rfl
      rw [List.filterMap_cons_none hinterface, List.filterMap_cons_none houtput, ih]
    | publish i =>
      have hinterface : (Task.publish i).interface? = some i := rfl
      rw [List.filterMap_cons_some hinterface, List.reverse_cons, List.find?_append,
        Option.map_or, ← ih, List.filterMap_cons, Task.output?_eq, hinterface, Option.bind_some]
      cases hplace : plan.placeOf? t i with
      | none => simp [hplace]
      | some q =>
        rw [Option.map_some]
        dsimp only
        rw [lastOutput?_cons]
        by_cases hq : q = place
        · simp [hplace, hq]
        · simp [hplace, hq, Ne.symm hq]

/-- The outcome of a pass, told by the tasks that it carries out. -/
theorem Plan.generate_eq_carriedOut (plan : Plan) (check : Validator) (t : FileTree)
    (hjson : ∀ e ∈ plan.filter.extensions, normalizeExtension e ≠ ".json") :
    (plan.generate check t).pass.written = (plan.carriedOut check t).filterMap (·.path? plan) ∧
      (plan.generate check t).pass.tree.workingDirectory = t.workingDirectory ∧
      ∀ place, (plan.generate check t).pass.tree.at? place =
        match plan.lastPublished? check t place with
        | some i => some (some (plan.schemaBytes i))
        | none => t.at? place := by
  cases hfiles : t.discover plan.rootDir plan.filter with
  | error reason =>
    have hnone : plan.carriedOut check t = [] := by rw [carriedOut, hfiles]
    rw [generate, hfiles, hnone]
    refine ⟨rfl, rfl, fun place => ?_⟩
    rw [lastPublished?, hnone]
    rfl
  | ok files =>
    have hdone : plan.carriedOut check t = plan.done check t (plan.tasks t files) := by
      rw [carriedOut, hfiles]
    have heffect : plan.Effect check t (plan.tasks t files) [] (.start t) (plan.generate check t) :=
      effect_generate hjson hfiles
    rw [hdone]
    refine ⟨heffect.written, heffect.tree.workingDirectory, fun place => ?_⟩
    rw [heffect.tree.at_eq, List.nil_append, lastOutput?_filterMap, lastPublished?, hdone]
    generalize List.find? _ _ = found
    cases found <;> rfl

/-- What is published last at a place is a task of the pass, and it does not fail. -/
theorem Plan.mem_tasks_of_lastPublished? {check : Validator} {place : Location} {i : Interface}
    (h : plan.lastPublished? check t place = some i) :
    (∃ files, .publish i ∈ plan.tasks t files) ∧
      (Task.publish i).failure? plan check t = none := by
  have hmem := List.mem_of_find?_eq_some h
  rw [List.mem_reverse, List.mem_filterMap] at hmem
  obtain ⟨task, htask, hi⟩ := hmem
  cases task with
  | read source => cases hi
  | publish j =>
    cases hi
    rw [carriedOut] at htask
    split at htask
    · exact ⟨⟨_, List.takeWhile_subset _ htask⟩, by simpa using List.mem_takeWhile_imp htask⟩
    · cases htask

/-- Wherever a pass has published a schema, it leaves a file that is read as the value which was
checked, and this value was accepted. -/
theorem Plan.readsAs_lastPublished (plan : Plan) (check : Validator) (t : FileTree)
    (hjson : ∀ e ∈ plan.filter.extensions, normalizeExtension e ≠ ".json") {place : Location}
    {i : Interface} (h : plan.lastPublished? check t place = some i) :
    check (i.compile plan.placement).value = none ∧
      ∃ bytes, (plan.generate check t).pass.tree.at? place = some (some bytes) ∧
        Json.ReadsAs bytes (i.compile plan.placement).value := by
  obtain ⟨⟨files, htask⟩, hok⟩ := mem_tasks_of_lastPublished? h
  obtain ⟨-, -, hat⟩ := plan.generate_eq_carriedOut check t hjson
  have hplace := hat place
  rw [h] at hplace
  have hdistinct : (i.compile plan.placement).DistinctProperties :=
    i.distinctProperties_compile plan.placement (distinctMembers_of_mem_tasks htask)
  refine ⟨?_, _, hplace, Schema.readsAs_text hdistinct⟩
  cases hpublish : t.publish check plan.outDir (i.compile plan.placement) with
  | error reason =>
    rw [Task.failure?_publish, hpublish] at hok
    cases hok
  | ok published => exact (FileTree.of_publish hpublish).1

theorem Plan.at?_generate_keeping (placement : SignaturePlacement)
    (hjson : ∀ e ∈ plan.filter.extensions, normalizeExtension e ≠ ".json") (place : Location) :
    ((plan.keeping placement).generate draft07 t).pass.tree.at? place =
      match plan.lastPublished? draft07 t place with
      | some i => some (some (utf8 (i.compile placement).text))
      | none => t.at? place := by
  obtain ⟨-, -, hat⟩ := (plan.keeping placement).generate_eq_carriedOut draft07 t hjson
  rw [hat, lastPublished?_keeping]
  rfl

theorem Plan.failure_generate_keeping (placement : SignaturePlacement)
    (hjson : ∀ e ∈ plan.filter.extensions, normalizeExtension e ≠ ".json") :
    ((plan.keeping placement).generate draft07 t).failure = (plan.generate draft07 t).failure := by
  cases hfiles : t.discover plan.rootDir plan.filter with
  | error reason =>
    have hfiles' : t.discover (plan.keeping placement).rootDir (plan.keeping placement).filter =
        .error reason := hfiles
    rw [generate, generate, hfiles, hfiles']
  | ok files =>
    have heffect : plan.Effect draft07 t (plan.tasks t files) [] (.start t)
        (plan.generate draft07 t) := effect_generate hjson hfiles
    have heffect' : (plan.keeping placement).Effect draft07 t (plan.tasks t files) [] (.start t)
        ((plan.keeping placement).generate draft07 t) :=
      @effect_generate (plan.keeping placement) draft07 t hjson files hfiles
    rw [heffect.failure, heffect'.failure]
    exact (done_congr fun task htask => Task.failure?_keeping htask placement).2

/-- A pass that succeeds has finished all files. -/
theorem Plan.scanned_generate {check : Validator} (hok : (plan.generate check t).failure = none) :
    ∃ files, t.discover plan.rootDir plan.filter = .ok files ∧
      (plan.generate check t).pass.scanned = files.length := by
  cases hfiles : t.discover plan.rootDir plan.filter with
  | error reason =>
    rw [generate, hfiles] at hok
    cases hok
  | ok files =>
    rw [generate, hfiles] at hok ⊢
    exact ⟨files, rfl, (Pass.scanned_scanAll plan check _ files hok).trans (Nat.zero_add _)⟩

end

/-- Two passes that keep index signatures in different places have the same outcome: the same
failure or none, the same tasks carried out, and the same files written. Every place holds what it
held before or the two schemas of the interface published last there, and these differ exactly if
an index signature is nested in the interface. -/
theorem Plan.generate_legacy_uniform (plan : Plan) (t : FileTree)
    (hjson : ∀ e ∈ plan.filter.extensions, normalizeExtension e ≠ ".json") :
    let legacy := (plan.keeping .legacy).generate draft07 t
    let uniform := (plan.keeping .uniform).generate draft07 t
    legacy.failure = uniform.failure ∧
      (plan.keeping .legacy).carriedOut draft07 t = (plan.keeping .uniform).carriedOut draft07 t ∧
      (legacy.failure = none → legacy.pass.scanned = uniform.pass.scanned) ∧
      legacy.pass.written = uniform.pass.written ∧
      legacy.pass.tree.workingDirectory = uniform.pass.tree.workingDirectory ∧
      ∀ place, match plan.lastPublished? draft07 t place with
        | some i =>
          legacy.pass.tree.at? place = some (some (utf8 (i.compile .legacy).text)) ∧
            uniform.pass.tree.at? place = some (some (utf8 (i.compile .uniform).text)) ∧
            (legacy.pass.tree.at? place ≠ uniform.pass.tree.at? place ↔ i.NestsSignatures)
        | none =>
          legacy.pass.tree.at? place = t.at? place ∧ uniform.pass.tree.at? place = t.at? place := by
  intro legacy uniform
  have hfailure : legacy.failure = uniform.failure := by
    have hlegacy := plan.failure_generate_keeping (t := t) .legacy hjson
    have huniform := plan.failure_generate_keeping (t := t) .uniform hjson
    exact hlegacy.trans huniform.symm
  have htasks : (plan.keeping .legacy).carriedOut draft07 t =
      (plan.keeping .uniform).carriedOut draft07 t := by
    rw [carriedOut_keeping, carriedOut_keeping]
  obtain ⟨hwritten, hhere, -⟩ := (plan.keeping .legacy).generate_eq_carriedOut draft07 t hjson
  obtain ⟨hwritten', hhere', -⟩ := (plan.keeping .uniform).generate_eq_carriedOut draft07 t hjson
  refine ⟨hfailure, htasks, fun hok => ?_, ?_, hhere.trans hhere'.symm, fun place => ?_⟩
  · obtain ⟨files, hfiles, hscanned⟩ := scanned_generate hok
    obtain ⟨files', hfiles', hscanned'⟩ := scanned_generate (hfailure ▸ hok)
    have hsame : files = files' := Except.ok.inj (hfiles.symm.trans hfiles')
    rw [hscanned, hscanned', hsame]
  · rw [hwritten, hwritten', htasks]
    rfl
  · have hlegacy := plan.at?_generate_keeping (t := t) .legacy hjson place
    have huniform := plan.at?_generate_keeping (t := t) .uniform hjson place
    cases hlast : plan.lastPublished? draft07 t place with
    | none =>
      rw [hlast] at hlegacy huniform
      exact ⟨hlegacy, huniform⟩
    | some i =>
      rw [hlast] at hlegacy huniform
      refine ⟨hlegacy, huniform, ?_⟩
      have hbytes := i.text_legacy_eq_uniform_iff
      rw [hlegacy, huniform, ne_eq, Option.some_inj, Option.some_inj]
      exact hbytes.not_left

/-- An index signature in a nested object: one file is written, in two ways. -/
theorem generate_legacy_uniform_nested :
    let plan : Plan := ⟨⟨"."⟩, ⟨"."⟩, {}, 99, .legacy, ⟨"<", ">", "[k"⟩⟩
    let t : FileTree := ⟨.directory
      ⟨[("a.ts", .file (utf8 "<\n- A \x7b\nx: \x7b\n[k: v]: w;\n\x7d\n\x7d\n>"))]⟩, []⟩
    let legacy := (plan.keeping .legacy).generate draft07 t
    let uniform := (plan.keeping .uniform).generate draft07 t
    legacy.failure = none ∧ uniform.failure = none ∧
      legacy.pass.written = [⟨"./A.json"⟩] ∧ uniform.pass.written = [⟨"./A.json"⟩] ∧
      legacy.pass.tree.at? ["a.ts"] = uniform.pass.tree.at? ["a.ts"] ∧
      legacy.pass.tree.at? ["A.json"] ≠ uniform.pass.tree.at? ["A.json"] := by
  intro plan t legacy uniform
  have hjson : ∀ e ∈ plan.filter.extensions, normalizeExtension e ≠ ".json" := by decide
  have hfiles : t.discover plan.rootDir plan.filter = .ok [⟨"./a.ts"⟩] := by decide +kernel
  let i : Interface := ⟨"A", ⟨[("x", .object ⟨"x", ∅, [⟨"v", .named "w"⟩]⟩)]⟩, []⟩
  obtain ⟨hdone, hnone⟩ := @Plan.done_of_leaves plan t [⟨"./a.ts"⟩] (by decide +kernel)
  have hcarried : plan.carriedOut draft07 t = [.read ⟨"./a.ts"⟩, .publish i] := by
    rw [Plan.carriedOut, hfiles]
    exact hdone.trans (by decide +kernel)
  have hwritten : [Task.read ⟨"./a.ts"⟩, .publish i].filterMap (·.path? plan) = [⟨"./A.json"⟩] := by
    decide +kernel
  have hlast : plan.lastPublished? draft07 t ["A.json"] = some i := by
    rw [Plan.lastPublished?, hcarried]
    decide +kernel
  have hother : plan.lastPublished? draft07 t ["a.ts"] = none := by
    rw [Plan.lastPublished?, hcarried]
    decide +kernel
  obtain ⟨hfailure, -, -, hsame, -, hat⟩ := plan.generate_legacy_uniform t hjson
  have hlegacy : legacy.failure = none := by
    have heffect : plan.Effect draft07 t (plan.tasks t [⟨"./a.ts"⟩]) [] (.start t) legacy :=
      Plan.effect_generate hjson hfiles
    rw [heffect.failure, hnone]
    decide +kernel
  have hpaths : legacy.pass.written = [⟨"./A.json"⟩] := by
    rw [← hwritten, ← hcarried]
    exact (plan.generate_eq_carriedOut draft07 t hjson).1
  have hfile := hat ["A.json"]
  have hsource := hat ["a.ts"]
  rw [hlast] at hfile
  rw [hother] at hsource
  refine ⟨hlegacy, hfailure ▸ hlegacy, hpaths, hsame ▸ hpaths, ?_, ?_⟩
  · exact hsource.1.trans hsource.2.symm
  · exact hfile.2.2.2 (by decide)

end InterfaceSchema
