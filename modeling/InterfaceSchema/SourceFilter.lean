import InterfaceSchema.Path
import InterfaceSchema.Text.LowerCase
import InterfaceSchema.Text.Utf8

/-!
# Source filters

Which of the files and directories met on a walk matter, judged by their names alone. Names are
bytes. A name that is no text is neither hidden nor one of a directory to skip, and an extension is
compared as it is shown.
-/

namespace InterfaceSchema

/-- A choice of files and directories. -/
structure SourceFilter where
  /-- Extensions of the files wanted. Case does not count, nor does a dot in front. -/
  extensions : List String := [".ts"]
  /-- Names of directories that are not entered. -/
  skipDirs : List String := ["node_modules"]
  /-- Whether names that start with a dot are passed over. -/
  skipHidden : Bool := false
  deriving DecidableEq, Repr, Inhabited

/-- An extension in lower case, with a dot in front. -/
def normalizeExtension (e : String) : String :=
  let lower := lowerCase e
  if lower.toList.head? = some '.' then lower else "." ++ lower

namespace SourceFilter

/-- The same filter with its extensions in lower case and with dots. -/
def normalized (f : SourceFilter) : SourceFilter :=
  { f with extensions := f.extensions.map normalizeExtension }

/-- Whether a file or directory of this name is passed over, for the dot in front of its name or as
a directory to skip. This is asked of text only. -/
def skips (f : SourceFilter) (name : RawName) (isDirectory : Bool) : Bool :=
  match Utf8.decode? name with
  | none => false
  | some cs =>
    (f.skipHidden && cs.head? == some '.') ||
      (isDirectory && f.skipDirs.contains (String.ofList cs))

/-- Whether a name has an extension that a normalized filter asks for. -/
def takesExtension (f : SourceFilter) (name : RawName) : Bool :=
  match extension? name with
  | some e => f.extensions.contains ("." ++ lowerCase (Utf8.lossyText e))
  | none => false

/-- Whether a directory of this name is entered. -/
def enters (f : SourceFilter) (name : RawName) : Bool :=
  !f.skips name true

/-- Whether a file of this name is wanted by a normalized filter. -/
def wants (f : SourceFilter) (name : RawName) : Bool :=
  !f.skips name false && f.takesExtension name

end SourceFilter

end InterfaceSchema
