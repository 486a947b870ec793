import InterfaceSchema.FieldMap

/-!
# File trees

Directories within directories, and files with their bytes. A place in a tree is the list of names
that lead to it from the top.

A tree leaves out a good deal of what a file system has. Names are text, as they are where a program
is told a path and makes a file. There are no links, so a place has one way to it. Nobody is denied
anything, and a tree has room for whatever is put into it. Names that are not text, links and
devices are seen by a walk alone, which goes by listings.

## Main definitions

* `Node` — a file or a directory.
* `Node.get?`, `Node.put` — the node at a place, and a tree with another node there.
* `Node.listing` — every place below a node.
-/

namespace InterfaceSchema

/-- A file with its bytes, or a directory with what it holds. -/
inductive Node where
  | file (content : List UInt8)
  | directory (entries : FieldMap Node)

/-- The names that lead from the top of a tree to a place in it. -/
abbrev Location := List String

namespace Node

/-- The directory that holds nothing. -/
def emptyDirectory : Node := .directory ∅

instance : Inhabited Node := ⟨emptyDirectory⟩

/-- Whether the node is a directory. -/
def isDirectory : Node → Bool
  | .file _ => false
  | .directory _ => true

/-- What a node holds under a name. A file holds nothing. -/
def child? : Node → String → Option Node
  | .file _, _ => none
  | .directory entries, name => entries.get? name

/-- The node at a place. -/
def get? (node : Node) : Location → Option Node
  | [] => some node
  | name :: rest => (node.child? name).bind (·.get? rest)

/-- The tree with another node at a place. The directories on the way are made if they are missing;
below a file nothing changes. -/
def put : Node → Location → Node → Node
  | _, [], new => new
  | .file content, _ :: _, _ => .file content
  | .directory entries, name :: rest, new =>
    .directory (entries.insert name (((entries.get? name).getD emptyDirectory).put rest new))

mutual

/-- Every place below a node with what is there: a file's bytes, or `none` for a directory. A
directory comes before what it holds. -/
def listing : Node → List (Location × Option (List UInt8))
  | .file content => [([], some content)]
  | .directory ⟨entries⟩ => ([], none) :: entryListing entries

/-- Every place in or below the entries of a directory. -/
def entryListing : List (String × Node) → List (Location × Option (List UInt8))
  | [] => []
  | (name, node) :: rest =>
    node.listing.map (fun (place, content) => (name :: place, content)) ++ entryListing rest

end

end Node

end InterfaceSchema
