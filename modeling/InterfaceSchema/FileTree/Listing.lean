import InterfaceSchema.FileTree.Basic
import InterfaceSchema.Path
import InterfaceSchema.Text.Utf8

/-!
# Listings

What a walk sees of a directory: the names of its entries, as bytes, and of each entry whether it is
a regular file, a directory, or neither. Links are not followed, so they are neither. The bytes of
files are not looked at.

A file tree is a listing as well. Its names are those of texts, and all its entries are files or
directories.

## Main definitions

* `Entry` — what a walk sees of an entry, and of a directory as a whole.
* `Node.entry` — what it sees of a node in a file tree.
-/

namespace InterfaceSchema

/-- The names, as bytes, that lead from a directory to a place below it. -/
abbrev RawLocation := List RawName

/-- What a walk sees. -/
inductive Entry where
  /-- A regular file. -/
  | file
  /-- A directory with its entries, in no order. -/
  | directory (entries : List (RawName × Entry))
  /-- Neither of the two: a link, a pipe, a device. -/
  | other

namespace Node

mutual

/-- What a walk sees of a node. -/
def entry : Node → Entry
  | .file _ => .file
  | .directory ⟨entries⟩ => .directory (rawEntries entries)

/-- What a walk sees of the entries of a directory. -/
def rawEntries : List (String × Node) → List (RawName × Entry)
  | [] => []
  | (name, node) :: rest => (utf8 name, node.entry) :: rawEntries rest

end

end Node

end InterfaceSchema
