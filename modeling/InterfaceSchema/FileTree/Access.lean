import InterfaceSchema.FileTree.Basic
import InterfaceSchema.Path
import InterfaceSchema.Text.Utf8

/-!
# Access by path

A file tree as a program sees it: paths are followed one name at a time, each in a directory that
has to be there, and what cannot be done has its reason.

The reasons are those that lie in the tree and in the path. They show when a file is opened or a
directory is made, so a write that fails has not changed the tree, and one that does not has set all
the bytes. A disk that is full, a lack of permission, a device that breaks off in the middle and
another program at work on the same files are left out.

## Main definitions

* `FileTree` — a tree with a working directory.
* `FileTree.find` — the node that a path leads to.
* `FileTree.read`, `FileTree.write` — a file's bytes.
* `FileTree.makeDirectory`, `FileTree.makeDirectories` — one directory, and one with its parents.
-/

namespace InterfaceSchema

/-- A file tree from its top, and the directory that relative paths start from. -/
structure FileTree where
  top : Node
  workingDirectory : Location

/-- Why something cannot be done. -/
inductive AccessError where
  | notFound
  | alreadyExists
  | notADirectory
  | isADirectory
  | nameTooLong
  | nulInPath
  deriving DecidableEq, Repr

/-- The wording of a reason. -/
def AccessError.message : AccessError → String
  | .notFound => "No such file or directory (os error 2)"
  | .alreadyExists => "File exists (os error 17)"
  | .notADirectory => "Not a directory (os error 20)"
  | .isADirectory => "Is a directory (os error 21)"
  | .nameTooLong => "File name too long (os error 36)"
  | .nulInPath => "file name contained an unexpected NUL byte"

/-- The greatest number of bytes in a name. -/
def nameLimit : Nat := 255

/-- The number of bytes that no path reaches. -/
def pathLimit : Nat := 4096

namespace FileTree

/-! ## Following paths -/

/-- The directory from which a path is followed. -/
def origin (t : FileTree) (p : Path) : Location :=
  if p.isAbsolute then [] else t.workingDirectory

/-- Whether there is a directory at a place. -/
def directoryAt (t : FileTree) (place : Location) : Bool :=
  ((t.top.get? place).map Node.isDirectory).getD false

/-- Follow names from a place. -/
def walk (t : FileTree) (place : Location) : List String → Except AccessError Location
  | [] => .ok place
  | name :: rest =>
    if !t.directoryAt place then .error .notADirectory
    else if name = "." then t.walk place rest
    else if name = ".." then t.walk place.dropLast rest
    else if nameLimit < (utf8 name).length then .error .nameTooLong
    else if (t.top.get? (place ++ [name])).isSome then t.walk (place ++ [name]) rest
    else .error .notFound

/-- Refuse what is no path at all, judged by its bytes. -/
def refuseBytes (bytes : List UInt8) : Except AccessError Unit :=
  if bytes.contains 0 then .error .nulInPath
  else if bytes.isEmpty then .error .notFound
  else if pathLimit ≤ bytes.length then .error .nameTooLong
  else .ok ()

/-- Refuse what is no path at all. -/
def refuse (p : Path) : Except AccessError Unit :=
  refuseBytes (utf8 p.text)

/-- Whether a path ends in a slash, and so can only mean a directory. -/
def wantsDirectory (p : Path) : Bool :=
  p.text.toList.getLast? == some '/'

/-- The node that a path leads to. -/
def find (t : FileTree) (p : Path) : Except AccessError Node := do
  refuse p
  let place ← t.walk (t.origin p) (p.segments ++ if wantsDirectory p then ["."] else [])
  match t.top.get? place with
  | some node => return node
  | none => throw .notFound

/-- Whether a path leads anywhere. -/
def pathExists (t : FileTree) (p : Path) : Bool :=
  (t.find p).toBool

/-- Whether a path leads to a directory. -/
def isDirectory (t : FileTree) (p : Path) : Bool :=
  match t.find p with
  | .ok node => node.isDirectory
  | .error _ => false

/-- The directory in which the last name of a path is to be found, and this name. There is no such
name in a path that ends in dots, or consists of slashes. -/
def parent (t : FileTree) (p : Path) : Except AccessError (Location × Option String) := do
  refuse p
  match p.segments.getLast? with
  | none => return ([], none)
  | some name =>
    let place ← t.walk (t.origin p) p.segments.dropLast
    if !t.directoryAt place then throw .notADirectory
    else if name = "." ∨ name = ".." then return (place, none)
    else if nameLimit < (utf8 name).length then throw .nameTooLong
    else return (place, some name)

/-- The tree with another node at a place. -/
def putAt (t : FileTree) (place : Location) (node : Node) : FileTree :=
  { t with top := t.top.put place node }

/-! ## Files -/

/-- The bytes of a file. -/
def read (t : FileTree) (p : Path) : Except AccessError (List UInt8) := do
  match ← t.find p with
  | .file content => return content
  | .directory _ => throw .isADirectory

/-- The tree after the bytes of a file have been set. The file is made if it is missing. -/
def write (t : FileTree) (p : Path) (content : List UInt8) : Except AccessError FileTree := do
  let (place, name?) ← t.parent p
  match name? with
  | none => throw .isADirectory
  | some name =>
    if wantsDirectory p || t.directoryAt (place ++ [name]) then throw .isADirectory
    else return t.putAt (place ++ [name]) (.file content)

/-! ## Directories -/

/-- The tree after a directory has been made. -/
def makeDirectory (t : FileTree) (p : Path) : Except AccessError FileTree := do
  let (place, name?) ← t.parent p
  match name? with
  | none => throw .alreadyExists
  | some name =>
    if (t.top.get? (place ++ [name])).isSome then throw .alreadyExists
    else return t.putAt (place ++ [name]) .emptyDirectory

/-- Make a directory unless it is there. -/
def ensureDirectory (t : FileTree) (p : Path) : Option AccessError × FileTree :=
  match t.makeDirectory p with
  | .ok made => (none, made)
  | .error e => (if t.isDirectory p then none else some e, t)

/-- Make a directory unless it is there. When its parent is missing, this is made first in the
same way, and then another attempt is made. The candidates are the directory and its ancestors. -/
def ensureWithParents (t : FileTree) : List Path → Option AccessError × FileTree
  | [] => (none, t)
  | p :: parents =>
    if p.text.isEmpty then (none, t)
    else match t.makeDirectory p with
      | .ok made => (none, made)
      | .error .notFound =>
        match t.ensureWithParents parents with
        | (none, made) => made.ensureDirectory p
        | failed => failed
      | .error e => (if t.isDirectory p then none else some e, t)

/-- Make a directory and its parents, as far as they are missing. Directories made before a
failure stay. -/
def makeDirectories (t : FileTree) (p : Path) : Option AccessError × FileTree :=
  t.ensureWithParents (p :: p.ancestors)

end FileTree

end InterfaceSchema
