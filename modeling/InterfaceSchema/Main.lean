import InterfaceSchema.CommandLine.Command
import InterfaceSchema.FileTree.Changes

/-!
# The program

The command on a real file system. What it may look at is copied into a file tree, the command is
answered on that tree, and what has changed there is written back.
-/

namespace InterfaceSchema.Program

/-- The path of a place from the top. -/
def placePath (place : Location) : String :=
  "/" ++ "/".intercalate place

/-- The place of a path, two dots going back by one name. -/
def placeOf (t : FileTree) (p : Path) : Location :=
  p.segments.foldl (fun place name =>
    if name = "." then place
    else if name = ".." then place.dropLast
    else place ++ [name]) (t.origin p)

/-- Whether a directory is at a place of the file system; `none` if nothing is there. -/
def kindAt (place : Location) : IO (Option Bool) := do
  try
    let real ← IO.FS.realPath (placePath place)
    if ← real.isDir then return some true
    else if ← real.pathExists then return some false
    else return none
  catch _ => return none

/-- The names in a directory of the file system. -/
def namesIn (place : Location) : IO (List String) := do
  let real ← IO.FS.realPath (placePath place)
  return (← real.readDir).toList.map (·.fileName)

/-- The bytes of a file of the file system. -/
def bytesAt (place : Location) : IO (List UInt8) := do
  return (← IO.FS.readBinFile (placePath place)).toList

/-- Copy what stands on the way to a place, as far as it exists. -/
def copyWay (top : Node) (place : Location) : IO Node := do
  let mut top := top
  for n in List.range (place.length + 1) do
    let upper := place.take n
    if (top.get? upper).isNone then
      match ← kindAt upper with
      | some true => top := top.put upper .emptyDirectory
      | some false => return top.put upper (.file (← bytesAt upper))
      | none => return top
  return top

/-- Copy a directory: the files wanted by a normalized filter with their bytes, other files as empty
ones. Directories that are not entered are copied without what they hold. -/
partial def copyBelow (f : SourceFilter) (top : Node) (place : Location) : IO Node := do
  let mut top := top
  for name in ← namesIn place do
    let inner := place ++ [name]
    match ← kindAt inner with
    | some true =>
      if (top.get? inner).isNone then top := top.put inner .emptyDirectory
      if f.enters (utf8 name) then top ← copyBelow f top inner
    | some false =>
      if f.wants (utf8 name) then top := top.put inner (.file (← bytesAt inner))
      else if (top.get? inner).isNone then top := top.put inner (.file [])
    | none => pure ()
  return top

/-- Copy the entries of a directory without what they hold, unless they have been copied. -/
def copyEntries (top : Node) (place : Location) : IO Node := do
  let mut top := top
  for name in ← namesIn place do
    let inner := place ++ [name]
    if (top.get? inner).isNone then
      match ← kindAt inner with
      | some true => top := top.put inner .emptyDirectory
      | some false => top := top.put inner (.file [])
      | none => pure ()
  return top

/-- Copy what a command may look at. -/
def copyFor (t : FileTree) (options : CommandLine.Options) : IO FileTree := do
  let root := CommandLine.projectRoot t options
  let t := { t with top := ← copyWay t.top (placeOf t (Settings.file root)) }
  match (Settings.load t root).1 with
  | .error _ => return t
  | .ok settings =>
    let plan := settings.resolve root
    let source := placeOf t plan.rootDir
    let mut top ← copyWay t.top source
    if { t with top }.directoryAt source then top ← copyBelow plan.filter.normalized top source
    let out := placeOf t plan.outDir
    top ← copyWay top out
    if { t with top }.directoryAt out then top ← copyEntries top out
    return { t with top }

/-- Make a change in the file system. -/
def apply (c : Change) : IO Unit :=
  match c.content with
  | none => IO.FS.createDirAll ("/" ++ c.path)
  | some bytes => IO.FS.writeBinFile ("/" ++ c.path) ⟨bytes.toArray⟩

/-- Answer arguments. -/
def run (args : List String) : IO UInt32 := do
  let here := (Path.mk (← IO.currentDir).toString).segments
  let bare : FileTree := ⟨Node.emptyDirectory.put here .emptyDirectory, here⟩
  let before ← match CommandLine.Request.ofArguments args with
    | .ok (.run options) => copyFor bare options
    | _ => pure bare
  let response := CommandLine.respond before args
  for c in before.top.changes response.tree.top do
    apply c
  IO.print response.output
  IO.eprint response.report
  if response.exitCode = 2 then IO.eprint "\n"
  return response.exitCode.toUInt32

end InterfaceSchema.Program

/-- The command on the arguments of the process. -/
def main (args : List String) : IO UInt32 :=
  InterfaceSchema.Program.run args
