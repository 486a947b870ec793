import InterfaceSchema.Generation
import InterfaceSchema.Proofs.Outputs
import InterfaceSchema.Proofs.Sources

/-!
# The effect of a pass

A pass interleaves reading and writing, and stops wherever something fails. Its effect can be told
from the tree at its start all the same: the tasks are fixed by what the sources hold then, whether
a task fails does not depend on those before it, and the tree at the end is the one at the start
with the schemas of the tasks in front of the first failure.

## Main definitions

* `Task` — reading a source, or publishing an interface.
* `Plan.tasks` — the tasks of a pass, in order.
* `Plan.done` — the tasks in front of the first one that fails.
-/

namespace InterfaceSchema

/-! ## Tasks -/

/-- What a pass does in one step. -/
inductive Task where
  | read (source : Path)
  | publish (i : Interface)
  deriving DecidableEq

namespace Task

variable (plan : Plan) (check : Validator) (t : FileTree)

/-- Why a task fails in a tree, if it does. -/
def failure? : Task → Option GenerateError
  | .read source =>
    match t.readSource source plan.maxFileSize with
    | .error reason => some (.read source reason)
    | .ok _ => none
  | .publish i =>
    match t.publish check plan.outDir (i.compile plan.placement) with
    | .error reason => some (.publish reason)
    | .ok _ => none

/-- The file that a task writes: a schema, named by its interface, in the output directory. -/
def output? : Task → Option Output
  | .read _ => none
  | .publish i =>
    match t.follow plan.outDir with
    | .ok dir => some (dir ++ [i.name ++ ".json"], utf8 (i.compile plan.placement).text)
    | .error _ => none

/-- The path of the file that a task writes. -/
def path? : Task → Option Path
  | .read _ => none
  | .publish i => some (plan.outDir.join (i.name ++ ".json"))

end Task

namespace Plan

variable (plan : Plan) (check : Validator) (t : FileTree)

/-- The interfaces that a file declares, but for nameless ones. -/
def publications (source : Path) : List Interface :=
  match t.readSource source plan.maxFileSize with
  | .ok text => (parseSource plan.grammar text).1.filter (!·.name.isEmpty)
  | .error _ => []

/-- The tasks for some files: each file is read, and then what it declares is published. -/
def tasks (files : List Path) : List Task :=
  files.flatMap fun source => .read source :: (plan.publications t source).map .publish

/-- The tasks in front of the first one that fails. -/
def done (tasks : List Task) : List Task :=
  tasks.takeWhile fun task => (task.failure? plan check t).isNone

/-- What some steps lead to from a pass whose tree holds outputs: the first failure ends them, and
the tasks in front of it have been done. -/
structure Effect (tasks : List Task) (outputs : List Output) (p : Pass) (r : Progress) : Prop where
  failure : r.failure = tasks.findSome? (·.failure? plan check t)
  tree : t.Holds plan.outDir
    (outputs ++ (plan.done check t tasks).filterMap (·.output? plan t)) r.pass.tree
  written : r.pass.written = p.written ++ (plan.done check t tasks).filterMap (·.path? plan)

variable {plan check t} {task : Task} {tasks later : List Task} {outputs : List Output}
  {p next : Pass} {r : Progress}

theorem done_cons_of_failed {reason : GenerateError}
    (h : task.failure? plan check t = some reason) : plan.done check t (task :: tasks) = [] := by
  rw [done, List.takeWhile_cons, h]
  rfl

theorem done_cons (h : task.failure? plan check t = none) :
    plan.done check t (task :: tasks) = task :: plan.done check t tasks := by
  rw [done, List.takeWhile_cons, h]
  rfl

/-- Tasks behind a failure do not matter. -/
theorem done_append_of_failed {reason : GenerateError}
    (h : tasks.findSome? (·.failure? plan check t) = some reason) :
    plan.done check t (tasks ++ later) = plan.done check t tasks := by
  induction tasks with
  | nil => cases h
  | cons task rest ih =>
    rw [List.findSome?_cons] at h
    cases hfail : task.failure? plan check t with
    | some reason' => rw [List.cons_append, done_cons_of_failed hfail, done_cons_of_failed hfail]
    | none =>
      rw [hfail] at h
      rw [List.cons_append, done_cons hfail, done_cons hfail, ih h]

theorem done_append (h : tasks.findSome? (·.failure? plan check t) = none) :
    plan.done check t (tasks ++ later) = tasks ++ plan.done check t later := by
  rw [done, List.takeWhile_append_of_pos]
  · rfl
  · intro task hmem
    rw [List.findSome?_eq_none_iff.1 h task hmem]
    rfl

theorem done_eq_self (h : tasks.findSome? (·.failure? plan check t) = none) :
    plan.done check t tasks = tasks := by
  have happend : plan.done check t (tasks ++ []) = tasks ++ plan.done check t [] := done_append h
  rwa [List.append_nil, show plan.done check t [] = [] from rfl, List.append_nil] at happend

namespace Effect

theorem nil (h : t.Holds plan.outDir outputs p.tree) :
    plan.Effect check t [] outputs p ⟨none, p⟩ := by
  refine ⟨rfl, ?_, (List.append_nil _).symm⟩
  rwa [show plan.done check t [] = [] from rfl, List.filterMap_nil, List.append_nil]

theorem failed (h : t.Holds plan.outDir outputs p.tree) {reason : GenerateError}
    (hfail : task.failure? plan check t = some reason) :
    plan.Effect check t (task :: tasks) outputs p ⟨some reason, p⟩ := by
  refine ⟨?_, ?_, ?_⟩
  · rw [List.findSome?_cons, hfail]
  · rwa [done_cons_of_failed hfail, List.filterMap_nil, List.append_nil]
  · rw [done_cons_of_failed hfail, List.filterMap_nil, List.append_nil]

/-- A task that does not fail, with the tasks behind it. -/
theorem cons (hok : task.failure? plan check t = none)
    (hwritten : next.written = p.written ++ (task.path? plan).toList)
    (h : plan.Effect check t tasks (outputs ++ (task.output? plan t).toList) next r) :
    plan.Effect check t (task :: tasks) outputs p r := by
  obtain ⟨hfailure, htree, hr⟩ := h
  refine ⟨?_, ?_, ?_⟩
  · rw [hfailure, List.findSome?_cons, hok]
  · rw [done_cons hok, List.filterMap_cons]
    cases houtput : task.output? plan t with
    | none => simpa [houtput] using htree
    | some o => simpa [houtput] using htree
  · rw [hr, hwritten, done_cons hok, List.filterMap_cons]
    cases task.path? plan <;> simp

/-- A failure in the first of two series ends both. -/
theorem append_of_failed (h : plan.Effect check t tasks outputs p r) {reason : GenerateError}
    (hfail : r.failure = some reason) : plan.Effect check t (tasks ++ later) outputs p r := by
  have hfirst : tasks.findSome? (·.failure? plan check t) = some reason := by
    rw [← h.failure, hfail]
  refine ⟨?_, ?_, ?_⟩
  · rw [hfail, List.findSome?_append, hfirst]
    rfl
  · rw [done_append_of_failed hfirst]
    exact h.tree
  · rw [done_append_of_failed hfirst]
    exact h.written

/-- Two series of tasks, one after the other. -/
theorem append {first : Progress} (h : plan.Effect check t tasks outputs p first)
    (hok : first.failure = none)
    (hlater : plan.Effect check t later
      (outputs ++ tasks.filterMap (·.output? plan t)) first.pass r) :
    plan.Effect check t (tasks ++ later) outputs p r := by
  have hfirst : tasks.findSome? (·.failure? plan check t) = none := by rw [← h.failure, hok]
  refine ⟨?_, ?_, ?_⟩
  · rw [hlater.failure, List.findSome?_append, hfirst]
    rfl
  · rw [done_append hfirst, List.filterMap_append, ← List.append_assoc]
    exact hlater.tree
  · rw [hlater.written, h.written, done_eq_self hfirst, done_append hfirst, List.filterMap_append,
      List.append_assoc]

end Effect

end Plan

/-! ## Passes -/

namespace Pass

variable {plan : Plan} {check : Validator} {t : FileTree} {outputs : List Output} {p : Pass}

theorem effect_publishAll (source : Path) (interfaces : List Interface)
    (h : t.Holds plan.outDir outputs p.tree) :
    plan.Effect check t ((interfaces.filter (!·.name.isEmpty)).map .publish) outputs p
      (p.publishAll plan check source interfaces) := by
  induction interfaces generalizing p outputs with
  | nil => exact .nil h
  | cons i rest ih =>
    cases hname : i.name.isEmpty with
    | true =>
      have hfilter : (i :: rest).filter (!·.name.isEmpty) = rest.filter (!·.name.isEmpty) :=
        List.filter_cons_of_neg (by simp [hname])
      rw [publishAll, if_pos hname, hfilter]
      obtain ⟨hfailure, htree, hwritten⟩ := ih (p := p.report [.namelessDeclaration source]) h
      exact ⟨hfailure, htree, hwritten⟩
    | false =>
      have hfilter : (i :: rest).filter (!·.name.isEmpty) = i :: rest.filter (!·.name.isEmpty) :=
        List.filter_cons_of_pos (by simp [hname])
      rw [publishAll, if_neg (by simp [hname]), hfilter, List.map_cons]
      have hpublish := h.publish check (i.compile plan.placement)
      cases ht : t.publish check plan.outDir (i.compile plan.placement) with
      | error reason =>
        rw [ht] at hpublish
        rw [hpublish]
        exact .failed h (by rw [Task.failure?, ht])
      | ok result =>
        rw [ht] at hpublish
        obtain ⟨hpath, dir, next, hfollow, hnow, hholds⟩ := hpublish
        rw [hnow, hpath]
        have houtput : (Task.publish i).output? plan t =
            some (dir ++ [i.name ++ ".json"], utf8 (i.compile plan.placement).text) := by
          rw [Task.output?, hfollow]
        refine .cons (by rw [Task.failure?, ht]) ?_ (ih ?_)
        · rfl
        · rw [houtput]
          exact hholds

theorem scanned_publishAll (plan : Plan) (check : Validator) (source : Path) (p : Pass)
    (interfaces : List Interface) :
    (p.publishAll plan check source interfaces).pass.scanned = p.scanned := by
  induction interfaces generalizing p with
  | nil => rfl
  | cons i rest ih =>
    rw [publishAll]
    split_ifs
    · exact ih _
    · cases p.tree.publish check plan.outDir (i.compile plan.placement) with
      | error reason => rfl
      | ok result => exact ih _

theorem effect_scan {source : Path} (hjson : ¬".json".toList <:+ source.text.toList)
    (h : t.Holds plan.outDir outputs p.tree) :
    plan.Effect check t (.read source :: (plan.publications t source).map .publish) outputs p
      (p.scan plan check source) := by
  rw [scan, h.readSource_eq hjson]
  cases hread : t.readSource source plan.maxFileSize with
  | error reason => exact .failed h (by rw [Task.failure?, hread])
  | ok text =>
    have hpublications : plan.publications t source =
        (parseSource plan.grammar text).1.filter (!·.name.isEmpty) := by
      rw [Plan.publications, hread]
    rw [hpublications]
    refine .cons (by rw [Task.failure?, hread]) ?_ (effect_publishAll source _ ?_)
    · exact (List.append_nil _).symm
    · exact (List.append_nil outputs).symm ▸ h

theorem scanned_scan (plan : Plan) (check : Validator) (source : Path) (p : Pass) :
    (p.scan plan check source).pass.scanned = p.scanned := by
  rw [scan]
  cases p.tree.readSource source plan.maxFileSize with
  | error reason => rfl
  | ok text => exact scanned_publishAll plan check source _ _

/-- Treating files one after the other. -/
theorem effect_scanAll {files : List Path}
    (hjson : ∀ source ∈ files, ¬".json".toList <:+ source.text.toList)
    (h : t.Holds plan.outDir outputs p.tree) :
    plan.Effect check t (plan.tasks t files) outputs p (p.scanAll plan check files) := by
  induction files generalizing p outputs with
  | nil => exact .nil h
  | cons source rest ih =>
    obtain ⟨hsource, hrest⟩ := List.forall_mem_cons.1 hjson
    have hscan : plan.Effect check t (.read source :: (plan.publications t source).map .publish)
        outputs p (p.scan plan check source) := effect_scan hsource h
    rw [Plan.tasks, List.flatMap_cons, scanAll]
    cases hresult : p.scan plan check source with
    | mk failure last =>
      rw [hresult] at hscan
      cases failure with
      | some reason => exact hscan.append_of_failed rfl
      | none =>
        have htree := hscan.tree
        rw [Plan.done_eq_self (by rw [← hscan.failure])] at htree
        obtain ⟨hfailure, hlast, hwritten⟩ :=
          ih (p := { last with scanned := last.scanned + 1 }) hrest htree
        exact hscan.append rfl ⟨hfailure, hlast, hwritten⟩

theorem scanned_scanAll (plan : Plan) (check : Validator) (p : Pass) (files : List Path)
    (h : (p.scanAll plan check files).failure = none) :
    (p.scanAll plan check files).pass.scanned = p.scanned + files.length := by
  induction files generalizing p with
  | nil => rfl
  | cons source rest ih =>
    have hscan := scanned_scan plan check source p
    rw [scanAll] at h ⊢
    cases hresult : p.scan plan check source with
    | mk failure last =>
      rw [hresult] at h hscan
      cases failure with
      | some reason => cases h
      | none =>
        refine (ih _ h).trans ?_
        simp only [List.length_cons] at hscan ⊢
        omega

end Pass

section

variable {plan : Plan} {check : Validator} {t : FileTree}

theorem Plan.effect_generate
    (hjson : ∀ e ∈ plan.filter.extensions, normalizeExtension e ≠ ".json") {files : List Path}
    (h : t.discover plan.rootDir plan.filter = .ok files) :
    plan.Effect check t (plan.tasks t files) [] (.start t) (plan.generate check t) := by
  rw [generate, h]
  let begun := (Pass.start t).report [.discovered plan.rootDir files.length]
  have hbegun : t.Holds plan.outDir [] begun.tree := t.holds_self plan.outDir
  have heffect : plan.Effect check t (plan.tasks t files) [] begun
      (begun.scanAll plan check files) :=
    Pass.effect_scanAll (FileTree.not_json_of_discover hjson h) hbegun
  exact ⟨heffect.failure, heffect.tree, heffect.written⟩

/-- What has been published has its place in the output directory, which is there. -/
theorem Task.directoryAt_of_failure?_eq_none {i : Interface}
    (h : (Task.publish i).failure? plan check t = none) :
    ∃ dir, t.follow plan.outDir = .ok dir ∧ t.directoryAt dir = true := by
  have hpublish := (t.holds_self plan.outDir).publish check (i.compile plan.placement)
  rw [failure?] at h
  cases ht : t.publish check plan.outDir (i.compile plan.placement) with
  | error reason =>
    rw [ht] at h
    cases h
  | ok result =>
    rw [ht] at hpublish
    obtain ⟨-, _, _, -, -, hholds⟩ := hpublish
    obtain ⟨dir, _, hfollow, hdir, -⟩ :=
      hholds.outputs_in _ (List.mem_append_right _ (List.mem_singleton_self _))
    exact ⟨dir, hfollow, hdir⟩

/-- The exact effect of a pass, unless JSON files are among its sources. When the sources cannot be
found, the tree stays as it is. Otherwise the failure is that of the first task that fails, and the
tree is the one at the start but for the schemas of the tasks in front of it, where a later schema
takes the place of an earlier one of the same name. -/
theorem Plan.generate_eq (plan : Plan) (check : Validator) (t : FileTree)
    (hjson : ∀ e ∈ plan.filter.extensions, normalizeExtension e ≠ ".json") :
    match t.discover plan.rootDir plan.filter with
    | .error reason =>
      (plan.generate check t).failure = some (.discover reason) ∧
        (plan.generate check t).pass.tree = t
    | .ok files =>
      let done := plan.done check t (plan.tasks t files)
      (plan.generate check t).failure =
          (plan.tasks t files).findSome? (·.failure? plan check t) ∧
        (∀ place, (plan.generate check t).pass.tree.at? place =
          match lastOutput? (done.filterMap (·.output? plan t)) place with
          | some content => some (some content)
          | none => t.at? place) ∧
        (plan.generate check t).pass.tree.workingDirectory = t.workingDirectory ∧
        (∀ i, .publish i ∈ done →
          ∃ dir, t.follow plan.outDir = .ok dir ∧ t.directoryAt dir = true) ∧
        (plan.generate check t).pass.written = done.filterMap (·.path? plan) ∧
        ((plan.generate check t).failure = none →
          (plan.generate check t).pass.scanned = files.length) := by
  cases h : t.discover plan.rootDir plan.filter with
  | error reason =>
    rw [generate, h]
    exact ⟨rfl, rfl⟩
  | ok files =>
    have heffect : plan.Effect check t (plan.tasks t files) [] (.start t) (plan.generate check t) :=
      effect_generate hjson h
    refine ⟨heffect.failure, heffect.tree.at_eq, heffect.tree.workingDirectory, ?_,
      heffect.written, ?_⟩
    · intro i hi
      have hok := List.mem_takeWhile_imp hi
      exact Task.directoryAt_of_failure?_eq_none (by simpa using hok)
    · intro hnone
      rw [generate, h] at hnone ⊢
      exact (Pass.scanned_scanAll plan check _ files hnone).trans (Nat.zero_add _)

end

/-- A schema that is written next to its source, and one with a title that is refused. -/
theorem generate_unsafeTitle :
    let plan : Plan := ⟨⟨"."⟩, ⟨"."⟩, {}, 99, .legacy, ⟨"<", ">", "["⟩⟩
    let t : FileTree :=
      ⟨.directory ⟨[("a.ts", .file (utf8 "<\n- A \x7b\n\x7d\n>\n<\n- / \x7b\n\x7d\n>"))]⟩, []⟩
    (plan.generate (fun _ => none) t).failure = some (.publish (.unsafeTitle "/")) ∧
      (plan.generate (fun _ => none) t).pass.written = [⟨"./A.json"⟩] ∧
      (plan.generate (fun _ => none) t).pass.tree.at? ["a.ts"] = t.at? ["a.ts"] ∧
      (plan.generate (fun _ => none) t).pass.tree.at? ["A.json"] =
        some (some (utf8 ((Interface.ofName "A").compile .legacy).text)) := by
  intro plan t
  have hdiscover : t.discover plan.rootDir plan.filter = .ok [⟨"./a.ts"⟩] := by decide +kernel
  have htasks : plan.tasks t [⟨"./a.ts"⟩] =
      [.read ⟨"./a.ts"⟩, .publish (.ofName "A"), .publish (.ofName "/")] := by decide +kernel
  have hdone : plan.done (fun _ => none) t (plan.tasks t [⟨"./a.ts"⟩]) =
      [.read ⟨"./a.ts"⟩, .publish (.ofName "A")] := by
    rw [htasks]
    decide +kernel
  have hfollow : t.follow plan.outDir = .ok [] := by decide +kernel
  have houtputs : [Task.read ⟨"./a.ts"⟩, .publish (.ofName "A")].filterMap (·.output? plan t) =
      [(["A.json"], utf8 ((Interface.ofName "A").compile .legacy).text)] := by
    simp only [List.filterMap_cons, List.filterMap_nil, Task.output?, hfollow]
    rfl
  have h := plan.generate_eq (fun _ => none) t (by decide)
  rw [hdiscover] at h
  obtain ⟨hfailure, hat, -, -, hwritten, -⟩ := h
  rw [htasks] at hfailure
  rw [hdone] at hwritten
  rw [hdone, houtputs] at hat
  rw [hfailure, hwritten, hat, hat]
  generalize utf8 ((Interface.ofName "A").compile .legacy).text = content
  exact ⟨by decide +kernel, by decide +kernel, rfl, rfl⟩

end InterfaceSchema
