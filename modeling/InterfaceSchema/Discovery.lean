import InterfaceSchema.FileTree.Access
import InterfaceSchema.FileTree.Listing
import InterfaceSchema.SourceFile
import InterfaceSchema.SourceFilter

/-!
# Finding sources

The files below a directory that a filter wants. Each directory's entries are visited in the order
of the bytes of their names, and a directory where it stands among the files. A directory whose
path has become too long cannot be listed, and then there is no answer at all.

## Main definitions

* `Entry.visits` — what a walk comes by below a directory, in order.
* `Entry.sources`, `Entry.entered` — the wanted files and the directories among it.
* `discover` — the paths of the wanted files, as bytes.
* `FileTree.discover` — these paths in a file tree.
-/

namespace InterfaceSchema

/-- What a walk comes by. -/
inductive Visit where
  /-- A directory that is entered. -/
  | directory (place : RawLocation)
  /-- A file that is wanted. -/
  | file (place : RawLocation)
  deriving DecidableEq, Repr

namespace Visit

/-- The same from one directory further up. -/
def within (name : RawName) : Visit → Visit
  | .directory place => .directory (name :: place)
  | .file place => .file (name :: place)

/-- The place of a wanted file. -/
def file? : Visit → Option RawLocation
  | .directory _ => none
  | .file place => some place

/-- The place of a directory entered. -/
def directory? : Visit → Option RawLocation
  | .directory place => some place
  | .file _ => none

end Visit

/-- Named things in the order of the bytes of their names. -/
def sortByName {α : Type} (entries : List (RawName × α)) : List (RawName × α) :=
  entries.mergeSort fun a b => decide (a.1 ≤ b.1)

namespace Entry

mutual

/-- What a walk comes by at and below an entry of the given name. The filter is a normalized one. -/
def visitsAt (f : SourceFilter) (name : RawName) : Entry → List Visit
  | .file => if f.wants name then [.file [name]] else []
  | .directory entries =>
    if f.enters name then
      .directory [name] ::
        ((sortByName (entryVisits f entries)).flatMap Prod.snd).map (·.within name)
    else []
  | .other => []

/-- For each entry of a directory, what a walk comes by at and below it. -/
def entryVisits (f : SourceFilter) : List (RawName × Entry) → List (RawName × List Visit)
  | [] => []
  | (name, entry) :: rest => (name, entry.visitsAt f name) :: entryVisits f rest

end

/-- What a walk comes by below a directory, in order. The directory is not asked for its name. -/
def visits (f : SourceFilter) : Entry → List Visit
  | .file => []
  | .directory entries => (sortByName (entryVisits f entries)).flatMap Prod.snd
  | .other => []

/-- The places of the files wanted below a directory, in order. -/
def sources (f : SourceFilter) (dir : Entry) : List RawLocation :=
  (dir.visits f).filterMap Visit.file?

/-- The places of the directories entered below a directory, in order. -/
def entered (f : SourceFilter) (dir : Entry) : List RawLocation :=
  (dir.visits f).filterMap Visit.directory?

end Entry

/-! ## Paths -/

/-- The path that bytes are shown as. -/
def Path.ofBytes (bytes : List UInt8) : Path :=
  ⟨Utf8.lossyText bytes⟩

/-- The path of a place below a directory. A slash stands between the two, unless the directory's
path is empty or ends in one. -/
def pathBelow (root : List UInt8) (place : RawLocation) : List UInt8 :=
  if root.isEmpty || root.getLast? == some 0x2F then root ++ [0x2F].intercalate place
  else root ++ 0x2F :: [0x2F].intercalate place

/-! ## Discovery -/

/-- Why a directory cannot be listed by its path, if it cannot. -/
def listingError? (path : List UInt8) : Option SourceError :=
  match FileTree.refuseBytes path with
  | .ok () => none
  | .error reason => some (.listing (.ofBytes path) reason)

/-- The paths of the files wanted below a directory, in order, if a directory is found under the
path given for it. -/
def discover (root : List UInt8) (found : Option Entry) (f : SourceFilter) :
    Except SourceError (List (List UInt8)) :=
  match found with
  | some (.directory entries) =>
    let dir := Entry.directory entries
    let f := f.normalized
    match ((dir.entered f).map (pathBelow root)).findSome? listingError? with
    | some reason => .error reason
    | none => .ok ((dir.sources f).map (pathBelow root))
  | _ => .error (.notFound (.ofBytes root))

/-- The paths of the files wanted below a directory of a file tree, in order. -/
def FileTree.discover (t : FileTree) (root : Path) (f : SourceFilter) :
    Except SourceError (List Path) :=
  let found := (t.find root).toOption.map Node.entry
  (InterfaceSchema.discover (utf8 root.text) found f).map (·.map Path.ofBytes)

end InterfaceSchema
