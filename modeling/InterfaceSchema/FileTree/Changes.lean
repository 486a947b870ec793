import InterfaceSchema.FileTree.Basic
import InterfaceSchema.Text.Utf8

/-!
# Changes between file trees

What is new or has other bytes in the second of two trees.
-/

namespace InterfaceSchema

/-- A place that is new or has changed: a file with its bytes, or a directory, whose path ends in a
slash. -/
structure Change where
  path : String
  content : Option (List UInt8)
  deriving DecidableEq, Repr

namespace Node

/-- Whether a node is the file of the given bytes, or a directory if none are given. -/
def isContent : Node → Option (List UInt8) → Bool
  | .file old, some new => old == new
  | .directory _, none => true
  | _, _ => false

/-- What is new or has changed below the top of `after`, in the order of the bytes of the paths. -/
def changes (before after : Node) : List Change :=
  let found := after.listing.filter fun (place, content) =>
    !place.isEmpty && !((before.get? place).map (·.isContent content)).getD false
  let named := found.map fun (place, content) =>
    let path := "/".intercalate place
    { path := if content.isSome then path else path ++ "/", content : Change }
  named.mergeSort fun a b => Utf8.le a.path b.path

end Node

end InterfaceSchema
