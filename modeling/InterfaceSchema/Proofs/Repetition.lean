import InterfaceSchema.Proofs.Effect
import InterfaceSchema.Proofs.Rescanning

/-!
# Repeating a pass

A pass leaves its sources as they are, and finds the same ones when it is repeated. Whether a step
succeeds does not depend on the outputs that are there already, so the repeated pass goes as far as
the first and writes the same schemas once more, in the same order: it ends with the same outcome
and with the very same tree.

## Main definitions

* `Pass.InStep` — two passes that have come equally far, whatever outputs their trees hold.
-/

namespace InterfaceSchema

variable {plan : Plan} {check : Validator} {t : FileTree}

/-! ## What a pass keeps -/

section

variable {P : List Path → FileTree → Prop}
  (hpublish : ∀ written now next (i : Interface) path, P written now →
    now.publish check plan.outDir (i.compile plan.placement) = .ok (path, next) →
    P (written ++ [path]) next)
include hpublish

/-- What every publication keeps is kept by publishing all that a file declares. -/
theorem Pass.kept_publishAll (source : Path) (interfaces : List Interface) {p : Pass}
    (h : P p.written p.tree) :
    P (p.publishAll plan check source interfaces).pass.written
      (p.publishAll plan check source interfaces).pass.tree := by
  induction interfaces generalizing p with
  | nil => exact h
  | cons i rest ih =>
    rw [publishAll]
    split_ifs with hname
    · exact ih h
    · cases hresult : p.tree.publish check plan.outDir (i.compile plan.placement) with
      | error reason => exact h
      | ok result => exact ih (hpublish _ _ _ _ _ h hresult)

theorem Pass.kept_scanAll (files : List Path) {p : Pass} (h : P p.written p.tree) :
    P (p.scanAll plan check files).pass.written (p.scanAll plan check files).pass.tree := by
  induction files generalizing p with
  | nil => exact h
  | cons source rest ih =>
    have hscan :
        P (p.scan plan check source).pass.written (p.scan plan check source).pass.tree := by
      rw [scan]
      cases p.tree.readSource source plan.maxFileSize with
      | error reason => exact h
      | ok text => exact kept_publishAll hpublish source _ h
    rw [scanAll]
    cases hresult : p.scan plan check source with
    | mk failure last =>
      rw [hresult] at hscan
      cases failure with
      | some reason => exact hscan
      | none => exact ih hscan

theorem Plan.kept_generate (h : P [] t) :
    P (plan.generate check t).pass.written (plan.generate check t).pass.tree := by
  rw [generate]
  cases t.discover plan.rootDir plan.filter with
  | error reason => exact h
  | ok files => exact Pass.kept_scanAll hpublish files h

end

/-- What a pass does to a tree is a series of writes: of the schemas of some interfaces, one for
each path that it lists. -/
theorem Plan.exists_published_generate (plan : Plan) (check : Validator) (t : FileTree) :
    ∃ published : List Interface,
      (plan.generate check t).pass.written =
          published.map (fun i => plan.outDir.join (i.name ++ ".json")) ∧
        (∀ i ∈ published, IsFileName (i.name ++ ".json")) ∧
        t.WriteSeries plan.outDir
          ((published.map Task.publish).filterMap (·.output? plan t))
          (plan.generate check t).pass.tree := by
  refine Plan.kept_generate (P := fun written now => ∃ published : List Interface,
    written = published.map (fun i => plan.outDir.join (i.name ++ ".json")) ∧
      (∀ i ∈ published, IsFileName (i.name ++ ".json")) ∧
      t.WriteSeries plan.outDir ((published.map Task.publish).filterMap (·.output? plan t)) now) ?_
    ⟨[], rfl, by simp, .nil⟩
  rintro written now next i path ⟨published, rfl, hnames, h⟩ hpublish
  obtain ⟨hname, -, rfl, hwrite⟩ := FileTree.write_of_publish hpublish
  obtain ⟨dir, hfollow, hdir, hfree, rfl, -⟩ := FileTree.of_write_join hname hwrite
  rw [h.holds.follow_eq] at hfollow
  rw [h.holds.directoryAt_eq] at hdir hfree
  have houtput : (Task.publish i).output? plan t =
      some (dir ++ [i.name ++ ".json"], utf8 (i.compile plan.placement).text) := by
    rw [Task.output?, hfollow]
  refine ⟨published ++ [i], by simp [Schema.fileName, Interface.compile], ?_, ?_⟩
  · rw [List.forall_mem_append, List.forall_mem_singleton]
    exact ⟨hnames, hname⟩
  · rw [List.map_append, List.filterMap_append, List.map_singleton,
      List.filterMap_cons_some houtput]
    exact h.concat hfollow hdir hfree _

theorem FileTree.exists_writeSeries_generate (plan : Plan) (check : Validator) (t : FileTree) :
    ∃ outputs, t.WriteSeries plan.outDir outputs (plan.generate check t).pass.tree := by
  obtain ⟨_, -, -, hseries⟩ := plan.exists_published_generate check t
  exact ⟨_, hseries⟩

/-! ## Passes in step -/

/-- Two passes that have come equally far: they differ in their trees at most, and both trees hold
outputs of one tree. -/
structure Pass.InStep (t : FileTree) (outDir : Path) (p q : Pass) : Prop where
  scanned : p.scanned = q.scanned
  written : p.written = q.written
  events : p.events = q.events
  left : ∃ outputs, t.Holds outDir outputs p.tree
  right : ∃ outputs, t.Holds outDir outputs q.tree

/-- Two outcomes that are the same but for the outputs in their trees. -/
structure Progress.InStep (t : FileTree) (outDir : Path) (r s : Progress) : Prop where
  failure : r.failure = s.failure
  pass : r.pass.InStep t outDir s.pass

namespace Pass.InStep

variable {outDir : Path} {p q : Pass}

theorem report (h : p.InStep t outDir q) (events : List Event) :
    (p.report events).InStep t outDir (q.report events) := by
  obtain ⟨hscanned, hwritten, hevents, hleft, hright⟩ := h
  exact ⟨hscanned, hwritten, by rw [Pass.report, Pass.report, hevents], hleft, hright⟩

theorem publishAll (source : Path) (interfaces : List Interface)
    (h : p.InStep t plan.outDir q) :
    (p.publishAll plan check source interfaces).InStep t plan.outDir
      (q.publishAll plan check source interfaces) := by
  induction interfaces generalizing p q with
  | nil => exact ⟨rfl, h⟩
  | cons i rest ih =>
    rw [Pass.publishAll, Pass.publishAll]
    split_ifs with hname
    · exact ih (h.report _)
    · obtain ⟨_, hleft⟩ := h.left
      obtain ⟨_, hright⟩ := h.right
      have hp := hleft.publish check (i.compile plan.placement)
      have hq := hright.publish check (i.compile plan.placement)
      cases hresult : t.publish check plan.outDir (i.compile plan.placement) with
      | error reason =>
        rw [hresult] at hp hq
        rw [hp, hq]
        exact ⟨rfl, h⟩
      | ok result =>
        rw [hresult] at hp hq
        obtain ⟨-, _, next, -, hp, hnext⟩ := hp
        obtain ⟨-, _, next', -, hq, hnext'⟩ := hq
        rw [hp, hq]
        have hwritten : p.written ++ [result.1] = q.written ++ [result.1] := by rw [h.written]
        have hstep : ({ p with tree := next, written := p.written ++ [result.1] } : Pass).InStep t
            plan.outDir { q with tree := next', written := q.written ++ [result.1] } :=
          ⟨h.scanned, hwritten, h.events, ⟨_, hnext⟩, ⟨_, hnext'⟩⟩
        exact ih (hstep.report _)

theorem scan {source : Path} (hjson : ¬".json".toList <:+ source.text.toList)
    (h : p.InStep t plan.outDir q) :
    (p.scan plan check source).InStep t plan.outDir (q.scan plan check source) := by
  obtain ⟨_, hleft⟩ := h.left
  obtain ⟨_, hright⟩ := h.right
  rw [Pass.scan, Pass.scan, hleft.readSource_eq hjson, hright.readSource_eq hjson]
  cases t.readSource source plan.maxFileSize with
  | error reason => exact ⟨rfl, h⟩
  | ok text => exact publishAll source _ (h.report _)

theorem scanAll {files : List Path}
    (hjson : ∀ source ∈ files, ¬".json".toList <:+ source.text.toList)
    (h : p.InStep t plan.outDir q) :
    (p.scanAll plan check files).InStep t plan.outDir (q.scanAll plan check files) := by
  induction files generalizing p q with
  | nil => exact ⟨rfl, h⟩
  | cons source rest ih =>
    obtain ⟨hsource, hrest⟩ := List.forall_mem_cons.1 hjson
    have hscan : (p.scan plan check source).InStep t plan.outDir (q.scan plan check source) :=
      h.scan hsource
    rw [Pass.scanAll, Pass.scanAll]
    cases hp : p.scan plan check source with
    | mk failure last =>
      cases hq : q.scan plan check source with
      | mk failure' last' =>
        rw [hp, hq] at hscan
        obtain ⟨hfailure, hlast⟩ := hscan
        cases hfailure
        cases failure with
        | some reason => exact ⟨rfl, hlast⟩
        | none =>
          obtain ⟨hscanned, hwritten, hevents, hleft, hright⟩ := hlast
          exact ih hrest ⟨congrArg (· + 1) hscanned, hwritten, hevents, hleft, hright⟩

end Pass.InStep

/-- Outcomes in step are the same if their trees are. -/
theorem Progress.InStep.eq {outDir : Path} {r s : Progress} (h : r.InStep t outDir s)
    (htree : r.pass.tree = s.pass.tree) : r = s := by
  obtain ⟨failure, scanned, written, tree, events⟩ := r
  obtain ⟨failure', scanned', written', tree', events'⟩ := s
  obtain ⟨rfl, rfl, rfl, rfl, -, -⟩ := h
  cases htree
  rfl

/-! ## The same pass again -/

/-- A pass that is repeated on the tree it has left has the same outcome, be it a success or a
failure, and leaves the same tree, unless JSON files are among its sources. -/
theorem Plan.generate_generate (plan : Plan) (check : Validator) (t : FileTree)
    (hjson : ∀ e ∈ plan.filter.extensions, normalizeExtension e ≠ ".json") :
    plan.generate check (plan.generate check t).pass.tree = plan.generate check t := by
  cases hfiles : t.discover plan.rootDir plan.filter with
  | error reason =>
    have hfirst : plan.generate check t = ⟨some (.discover reason), .start t⟩ := by
      rw [generate, hfiles]
    rw [hfirst]
    exact hfirst
  | ok files =>
    have hsources := FileTree.not_json_of_discover hjson hfiles
    have hfirst : plan.Effect check t (plan.tasks t files) [] (.start t) (plan.generate check t) :=
      effect_generate hjson hfiles
    obtain ⟨_, hseries⟩ := t.exists_writeSeries_generate plan check
    set now := (plan.generate check t).pass.tree
    have hagain : now.discover plan.rootDir plan.filter = .ok files := by
      rw [hseries.discover_eq hjson, hfiles]
    let begun (s : FileTree) : Pass := (Pass.start s).report [.discovered plan.rootDir files.length]
    have hstart : (Pass.start now).InStep t plan.outDir (Pass.start t) :=
      ⟨rfl, rfl, rfl, ⟨_, hfirst.tree⟩, ⟨[], t.holds_self plan.outDir⟩⟩
    have hstep : (plan.generate check now).InStep t plan.outDir (plan.generate check t) := by
      rw [generate, generate, hagain, hfiles]
      exact (hstart.report _).scanAll hsources
    refine hstep.eq ?_
    -- the same outputs are written over themselves
    have hsecond : (begun now).scanAll plan check files = plan.generate check now := by
      rw [generate, hagain]
    have heffect : plan.Effect check t (plan.tasks t files)
        ([] ++ (plan.done check t (plan.tasks t files)).filterMap (·.output? plan t)) (begun now)
        ((begun now).scanAll plan check files) := Pass.effect_scanAll hsources hfirst.tree
    rw [hsecond] at heffect
    obtain ⟨_, hseries'⟩ := now.exists_writeSeries_generate plan check
    refine hseries'.eq_self fun place => ?_
    rw [heffect.tree.at_eq, hfirst.tree.at_eq, List.nil_append, lastOutput?_append, Option.or_self]

/-- Two interfaces of one name, written next to their source: the second replaces the first. -/
theorem generate_generate_overwritten :
    let plan : Plan := ⟨⟨"."⟩, ⟨"."⟩, {}, 99, .legacy, ⟨"<", ">", "["⟩⟩
    let t : FileTree :=
      ⟨.directory ⟨[("a.ts", .file (utf8 "<\n- A \x7b\n\x7d\n>\n<\n- A \x7b\nb: c;\n\x7d\n>"))]⟩, []⟩
    (plan.generate acceptAll t).pass.written = [⟨"./A.json"⟩, ⟨"./A.json"⟩] ∧
      plan.generate acceptAll (plan.generate acceptAll t).pass.tree =
        plan.generate acceptAll t := by
  intro plan t
  have hjson : ∀ e ∈ plan.filter.extensions, normalizeExtension e ≠ ".json" := by decide
  have hfiles : t.discover plan.rootDir plan.filter = .ok [⟨"./a.ts"⟩] := by decide +kernel
  have hwritten : (plan.done acceptAll t (plan.tasks t [⟨"./a.ts"⟩])).filterMap (·.path? plan) =
      [⟨"./A.json"⟩, ⟨"./A.json"⟩] := by decide +kernel
  have heffect : plan.Effect acceptAll t (plan.tasks t [⟨"./a.ts"⟩]) [] (.start t)
      (plan.generate acceptAll t) := Plan.effect_generate hjson hfiles
  refine ⟨?_, plan.generate_generate acceptAll t hjson⟩
  rw [heffect.written, hwritten]
  rfl

end InterfaceSchema
