import InterfaceSchema.CommandLine.Arguments
import InterfaceSchema.CommandLine.Help
import InterfaceSchema.CommandLine.Report

/-!
# The command

Arguments and a file tree give what is printed, an exit code, and the tree afterwards.

## Main definitions

* `respond` — the answer to arguments.
-/

namespace InterfaceSchema.CommandLine

/-- What a command leaves behind. -/
structure Response where
  exitCode : UInt8
  output : String
  report : String
  tree : FileTree

/-- The project root: as given, or the working directory. -/
def projectRoot (t : FileTree) (options : Options) : Path :=
  match options.root with
  | some root => ⟨root⟩
  | none => ⟨"/" ++ "/".intercalate t.workingDirectory⟩

/-- A failure with the tree at that point. -/
def fail (f : Failure) (t : FileTree) : Response :=
  ⟨1, "", f.report, t⟩

/-- Write the settings file of a new project. -/
def runInit (t : FileTree) (root : Path) : Response :=
  match Settings.writeStarter t root with
  | .error reason => fail (.init reason) t
  | .ok (path, written) => ⟨0, "Created " ++ path.text ++ "\n", "", written⟩

/-- The line that sums up a pass. -/
def summary (p : Pass) : String :=
  "Compiled " ++ toString p.written.length ++ " schema(s) from " ++ toString p.scanned
    ++ " file(s)\n"

/-- Generate the schemas of a project. -/
def runGenerate (t : FileTree) (root : Path) (placement : Option SignaturePlacement) : Response :=
  match (Settings.load t root).1 with
  | .error reason => fail (.load reason) t
  | .ok settings =>
    let resolved := settings.resolve root
    let plan := { resolved with placement := placement.getD resolved.placement }
    match t.makeDirectories plan.outDir with
    | (some reason, prepared) => fail (.prepare plan.outDir reason) prepared
    | (none, prepared) =>
      match plan.generate draft07 prepared with
      | ⟨some reason, last⟩ => fail (.generate reason) last.tree
      | ⟨none, last⟩ => ⟨0, summary last, "", last.tree⟩

/-- The answer to arguments. -/
def respond (t : FileTree) (texts : List String) : Response :=
  match Request.ofArguments texts with
  | .error e => ⟨2, "", e.message, t⟩
  | .ok .shortHelp => ⟨0, shortHelpText, "", t⟩
  | .ok .longHelp => ⟨0, longHelpText, "", t⟩
  | .ok .version => ⟨0, versionText, "", t⟩
  | .ok (.run options) =>
    let root := projectRoot t options
    if options.init then runInit t root else runGenerate t root options.placement

end InterfaceSchema.CommandLine
