import InterfaceSchema.Proofs.Effect
import InterfaceSchema.Proofs.Overwriting
import InterfaceSchema.Proofs.Recovery
import Mathlib.Data.List.Nodup

/-!
# Interfaces of one name

The schemas of interfaces of one name go to one file, wherever in a project the interfaces are
declared. A pass succeeds all the same and counts every one of them, but only the last is there
afterwards. So every schema stays exactly if no name is declared twice.

## Main definitions

* `Plan.declared` — the interfaces that files declare.
-/

namespace InterfaceSchema

namespace Plan

/-- The interfaces that files declare, in order, but for nameless ones. -/
def declared (plan : Plan) (t : FileTree) (files : List Path) : List Interface :=
  files.flatMap (plan.publications t)

/-- The path of an interface's schema. -/
def schemaPath (plan : Plan) (i : Interface) : Path :=
  plan.outDir.join (i.name ++ ".json")

/-- The bytes of an interface's schema. -/
def schemaBytes (plan : Plan) (i : Interface) : List UInt8 :=
  utf8 (i.compile plan.placement).text

/-- The file of an interface's schema in a directory. -/
def outputIn (plan : Plan) (dir : Location) (i : Interface) : Output :=
  (dir ++ [i.name ++ ".json"], plan.schemaBytes i)

variable {plan : Plan} {check : Validator} {t : FileTree} {files : List Path} {i : Interface}

/-! ## The tasks of a pass -/

theorem publish_mem_tasks : .publish i ∈ plan.tasks t files ↔ i ∈ plan.declared t files := by
  simp [tasks, declared]

/-- What is made of publications alone can be made of the interfaces declared. -/
theorem filterMap_tasks {β : Type} {f : Task → Option β} {g : Interface → β}
    (hread : ∀ source, f (.read source) = none) (hpublish : ∀ i, f (.publish i) = some (g i)) :
    (plan.tasks t files).filterMap f = (plan.declared t files).map g := by
  have hinner : f ∘ Task.publish = some ∘ g := funext hpublish
  induction files with
  | nil => rfl
  | cons source rest ih =>
    rw [tasks, declared] at ih
    rw [tasks, declared, List.flatMap_cons, List.flatMap_cons, List.filterMap_append,
      List.filterMap_cons_none (hread source), List.filterMap_map, hinner, List.filterMap_eq_map,
      List.map_append, ih]

/-! ## Passes that succeed -/

section

variable (hjson : ∀ e ∈ plan.filter.extensions, normalizeExtension e ≠ ".json")
  (hfiles : t.discover plan.rootDir plan.filter = .ok files)
  (hok : (plan.generate check t).failure = none)
include hjson hfiles hok

/-- No task of a pass that succeeds fails in the tree at the start. -/
theorem findSome?_tasks_of_ok :
    (plan.tasks t files).findSome? (·.failure? plan check t) = none := by
  rw [← (effect_generate hjson hfiles).failure, hok]

theorem written_generate :
    (plan.generate check t).pass.written = (plan.declared t files).map plan.schemaPath := by
  rw [(effect_generate hjson hfiles).written,
    done_eq_self (findSome?_tasks_of_ok hjson hfiles hok)]
  exact filterMap_tasks (fun _ => rfl) fun _ => rfl

theorem exists_write_of_declared (hi : i ∈ plan.declared t files) :
    IsFileName (i.name ++ ".json") ∧
      ∃ written, t.write (plan.schemaPath i) (plan.schemaBytes i) = .ok written := by
  have hnone := List.findSome?_eq_none_iff.1 (findSome?_tasks_of_ok hjson hfiles hok)
    (.publish i) (publish_mem_tasks.2 hi)
  rw [Task.failure?] at hnone
  cases hpublish : t.publish check plan.outDir (i.compile plan.placement) with
  | error reason => simp [hpublish] at hnone
  | ok result =>
    obtain ⟨hname, -, -, hwrite⟩ := FileTree.write_of_publish hpublish
    exact ⟨hname, _, hwrite⟩

theorem holds_generate {dir : Location} (hdir : t.follow plan.outDir = .ok dir) :
    t.Holds plan.outDir ((plan.declared t files).map (plan.outputIn dir))
      (plan.generate check t).pass.tree := by
  have heffect : plan.Effect check t (plan.tasks t files) [] (.start t) (plan.generate check t) :=
    effect_generate hjson hfiles
  have houtputs : (plan.tasks t files).filterMap (·.output? plan t) =
      (plan.declared t files).map (plan.outputIn dir) := by
    refine filterMap_tasks (fun _ => rfl) fun i => ?_
    rw [Task.output?, hdir]
    rfl
  have hholds := heffect.tree
  rwa [List.nil_append, done_eq_self (findSome?_tasks_of_ok hjson hfiles hok), houtputs] at hholds

/-- The last schema under a name can be read after the pass. -/
theorem read_generate_of_last {front rest : List Interface}
    (hi : plan.declared t files = front ++ i :: rest) (hlast : ∀ j ∈ rest, j.name ≠ i.name) :
    (plan.generate check t).pass.tree.read (plan.schemaPath i) = .ok (plan.schemaBytes i) := by
  have hmem : i ∈ plan.declared t files := by
    rw [hi]
    exact List.mem_append_right front List.mem_cons_self
  obtain ⟨hname, _, hwrite⟩ := exists_write_of_declared hjson hfiles hok hmem
  obtain ⟨dir, hfollow, hdir, -, -, hrefuse, hshort⟩ := FileTree.of_write_join hname hwrite
  have hholds := holds_generate hjson hfiles hok hfollow
  have hlater : (plan.outputIn dir i).1 ∉ (rest.map (plan.outputIn dir)).map Prod.fst := by
    intro hlater
    obtain ⟨j, hj, heq⟩ : ∃ j ∈ rest, j.name ++ ".json" = i.name ++ ".json" := by
      simpa [outputIn] using hlater
    exact hlast j hj (by simpa using heq)
  have hbytes : lastOutput? ((plan.declared t files).map (plan.outputIn dir))
      (plan.outputIn dir i).1 = some (plan.outputIn dir i).2 := by
    rw [hi, List.map_append, List.map_cons, lastOutput?_append, lastOutput?_cons,
      lastOutput?_eq_none_iff.2 hlater, Option.none_or, if_pos rfl, Option.some_or]
  have hat : (plan.generate check t).pass.tree.at? (dir ++ [i.name ++ ".json"]) =
      some (some (plan.schemaBytes i)) := by
    rw [outputIn] at hbytes
    rw [hholds.at_eq, hbytes]
  rw [← hholds.follow_eq] at hfollow
  rw [← hholds.directoryAt_eq] at hdir
  rw [schemaPath]
  refine FileTree.read_of_content? ?_
  exact FileTree.content?_find_join hname hrefuse hshort hfollow hdir hat

/-- The paths are all different exactly if the names are. -/
theorem nodup_written_generate : (plan.generate check t).pass.written.Nodup ↔
    ((plan.declared t files).map Interface.name).Nodup := by
  let pathOf (name : String) : Path := plan.outDir.join (name ++ ".json")
  have hpaths : (plan.generate check t).pass.written =
      ((plan.declared t files).map Interface.name).map pathOf := by
    rw [written_generate hjson hfiles hok, List.map_map]
    rfl
  rw [hpaths]
  refine ⟨.of_map pathOf, List.Nodup.map_on fun name hname other hother heq => ?_⟩
  obtain ⟨i, hi, rfl⟩ := List.mem_map.1 hname
  obtain ⟨j, hj, rfl⟩ := List.mem_map.1 hother
  have hjoin := Path.eq_of_join_eq (exists_write_of_declared hjson hfiles hok hi).1
    (exists_write_of_declared hjson hfiles hok hj).1 heq
  simpa using hjoin

/-- A pass that succeeds lists every schema as written, and the last one of each name can be read
afterwards. So the paths that are listed are different, and all schemas can be read, exactly if no
name is declared twice. -/
theorem schemas_kept_iff_nodup :
    let after := plan.generate check t
    let declared := plan.declared t files
    after.pass.written = declared.map plan.schemaPath ∧
      (∀ front i rest, declared = front ++ i :: rest → (∀ j ∈ rest, j.name ≠ i.name) →
        after.pass.tree.read (plan.schemaPath i) = .ok (plan.schemaBytes i)) ∧
      ((after.pass.written.Nodup ∧ ∀ i ∈ declared,
          after.pass.tree.read (plan.schemaPath i) = .ok (plan.schemaBytes i)) ↔
        (declared.map Interface.name).Nodup) := by
  intro after declared
  have hread : ∀ front i rest, declared = front ++ i :: rest → (∀ j ∈ rest, j.name ≠ i.name) →
      after.pass.tree.read (plan.schemaPath i) = .ok (plan.schemaBytes i) :=
    fun front i rest => read_generate_of_last hjson hfiles hok
  refine ⟨written_generate hjson hfiles hok, hread, ?_⟩
  rw [nodup_written_generate hjson hfiles hok]
  refine ⟨And.left, fun hnames => ⟨hnames, fun i hi => ?_⟩⟩
  obtain ⟨front, rest, hsplit⟩ := List.append_of_mem hi
  refine hread front i rest hsplit fun j hj heq => ?_
  -- a later interface of this name would be a second one
  have hnames : ((front ++ i :: rest).map Interface.name).Nodup := hsplit ▸ hnames
  grind

end

end Plan

/-- A file that declares two interfaces of one name: the schema of the first is gone. -/
theorem schemas_kept_iff_nodup_twoBlocks :
    let plan : Plan := ⟨⟨"."⟩, ⟨"."⟩, {}, 99, .legacy, ⟨"<", ">", "["⟩⟩
    let t : FileTree := ⟨.directory
      ⟨[("a.ts", .file (utf8 "<\n- A \x7b\n\x7d\n>\n<\n- A \x7b\nb: c;\n\x7d\n>"))]⟩, []⟩
    let first : Interface := .ofName "A"
    let second : Interface := ⟨"A", ⟨[("b", .named "c")]⟩, []⟩
    let after := plan.generate acceptAll t
    plan.declared t [⟨"./a.ts"⟩] = [first, second] ∧ after.failure = none ∧
      after.pass.written = [⟨"./A.json"⟩, ⟨"./A.json"⟩] ∧
      after.pass.tree.read ⟨"./A.json"⟩ = .ok (plan.schemaBytes second) ∧
      plan.schemaBytes first ≠ plan.schemaBytes second := by
  intro plan t first second after
  have hjson : ∀ e ∈ plan.filter.extensions, normalizeExtension e ≠ ".json" := by decide
  have hfiles : t.discover plan.rootDir plan.filter = .ok [⟨"./a.ts"⟩] := by decide +kernel
  have hdeclared : plan.declared t [⟨"./a.ts"⟩] = [first, second] := by decide +kernel
  have hok : after.failure = none := by
    rw [(Plan.effect_generate hjson hfiles).failure]
    decide +kernel
  have hpath : ∀ i : Interface, i.name = "A" → plan.schemaPath i = ⟨"./A.json"⟩ := fun i hi => by
    rw [Plan.schemaPath, hi]
    decide +kernel
  obtain ⟨hwritten, hread, -⟩ := Plan.schemas_kept_iff_nodup hjson hfiles hok
  rw [hdeclared] at hwritten hread
  have hsecond := hread [first] second [] rfl (by simp)
  rw [hpath second rfl] at hsecond
  rw [List.map_cons, List.map_cons, hpath first rfl, hpath second rfl] at hwritten
  refine ⟨hdeclared, hok, hwritten, hsecond, fun hbytes => ?_⟩
  have hrequired := congrArg Schema.required (Schema.text_injective hbytes)
  cases hrequired

end InterfaceSchema
