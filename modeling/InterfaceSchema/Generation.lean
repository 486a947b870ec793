import InterfaceSchema.Discovery
import InterfaceSchema.Publication
import InterfaceSchema.Schema.Compile
import InterfaceSchema.Settings.Storage
import InterfaceSchema.Source
import InterfaceSchema.SourceFile

/-!
# Generating schemas

One pass over a project: find the sources, read each of them, compile its interfaces and publish
the schemas. Everything happens in order, and the first failure ends the pass; what was written
before it stays.

## Main definitions

* `Pass` — the state of a pass between two steps, and `Pass.Step`, a step that may fail.
* `Plan.generate` — the whole pass.
-/

namespace InterfaceSchema

/-- Why a pass ends early. -/
inductive GenerateError where
  | discover (reason : SourceError)
  | read (path : Path) (reason : SourceError)
  | publish (reason : PublishError)
  deriving DecidableEq, Repr

/-- The wording of a reason. -/
def GenerateError.message : GenerateError → String
  | .discover reason => "Discovery failed: " ++ reason.message
  | .read path reason => "Failed to read " ++ path.text ++ ": " ++ reason.message
  | .publish reason => reason.message

/-- What a pass has done so far: how many files it has finished, what it has written, in order,
the tree as it is now, and the events so far. -/
structure Pass where
  scanned : Nat
  written : List Path
  tree : FileTree
  events : List Event

/-- The outcome of some steps: the failure that ended them, if one did, and the state they
lead to. -/
structure Progress where
  failure : Option GenerateError
  pass : Pass

namespace Pass

/-- Nothing done yet. -/
def start (t : FileTree) : Pass := ⟨0, [], t, []⟩

/-- Add events. -/
def report (p : Pass) (events : List Event) : Pass :=
  { p with events := p.events ++ events }

/-- Publish the schemas of interfaces read from a file. Nameless ones are passed over. -/
def publishAll (plan : Plan) (check : Validator) (source : Path) (p : Pass) :
    List Interface → Progress
  | [] => ⟨none, p⟩
  | i :: rest =>
    if i.name.isEmpty then
      (p.report [.namelessDeclaration source]).publishAll plan check source rest
    else match p.tree.publish check plan.outDir (i.compile plan.placement) with
      | .error reason => ⟨some (.publish reason), p⟩
      | .ok (out, tree) =>
        let next := { p with tree, written := p.written ++ [out] }
        (next.report [.wrote i.name source out]).publishAll plan check source rest

/-- Read a file and publish what it declares. -/
def scan (plan : Plan) (check : Validator) (p : Pass) (source : Path) : Progress :=
  match p.tree.readSource source plan.maxFileSize with
  | .error reason => ⟨some (.read source reason), p⟩
  | .ok text =>
    let (interfaces, events) := parseSource plan.grammar text
    (p.report (events ++ [.scanned source interfaces.length])).publishAll plan check source
      interfaces

/-- Treat files one after the other. -/
def scanAll (plan : Plan) (check : Validator) (p : Pass) : List Path → Progress
  | [] => ⟨none, p⟩
  | source :: rest =>
    match p.scan plan check source with
    | ⟨some reason, last⟩ => ⟨some reason, last⟩
    | ⟨none, next⟩ => { next with scanned := next.scanned + 1 }.scanAll plan check rest

end Pass

/-- Carry out a plan on a tree. -/
def Plan.generate (plan : Plan) (check : Validator) (t : FileTree) : Progress :=
  match t.discover plan.rootDir plan.filter with
  | .error reason => ⟨some (.discover reason), .start t⟩
  | .ok files =>
    ((Pass.start t).report [.discovered plan.rootDir files.length]).scanAll plan check files

end InterfaceSchema
