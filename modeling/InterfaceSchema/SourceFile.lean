import InterfaceSchema.FileTree.Access

/-!
# Source files

Reading a file as text, and what may go wrong with sources. It has to be there, it must not be
larger than allowed, and it must not look binary; apart from that, any bytes can be read.

## Main definitions

* `decodeSource` — the text of a file's bytes.
* `FileTree.readSource` — the text of a file.
-/

namespace InterfaceSchema

/-- Why a source cannot be found or read. -/
inductive SourceError where
  | notFound (path : Path)
  | tooLarge (size : Nat) (limit : Nat)
  | binary
  | access (reason : AccessError)
  /-- A directory cannot be listed. -/
  | listing (path : Path) (reason : AccessError)
  deriving DecidableEq, Repr

/-- What is said about a directory that cannot be listed. -/
def listingMessage (path : Path) (reason : AccessError) : String :=
  "IO error for operation on " ++ path.text ++ ": " ++ reason.message

/-- The wording of a reason. -/
def SourceError.message : SourceError → String
  | .notFound path => "File not found: " ++ path.text
  | .tooLarge size limit =>
    "File too large: " ++ toString size ++ " bytes (limit: " ++ toString limit ++ ")"
  | .binary => "Binary file detected"
  | .access reason => "IO error: " ++ reason.message
  | .listing path reason => "IO error: " ++ listingMessage path reason

/-- How many bytes are searched for a sign of binary content. -/
def sniffWindow : Nat := 8 * 1024

/-- Whether a null byte stands among the first bytes. -/
def isBinary (bytes : List UInt8) : Bool :=
  (bytes.take sniffWindow).contains 0

/-- The text of a file's bytes, unless they look binary. Damaged pieces are replaced. -/
def decodeSource (bytes : List UInt8) : Except SourceError String :=
  if isBinary bytes then .error .binary
  else .ok (String.ofList (Utf8.decodeLossy bytes))

/-- The size that is compared with the limit. A directory has the size of one block. -/
def Node.size : Node → Nat
  | .file content => content.length
  | .directory _ => 4096

/-- The text of a file that is not larger than a limit. -/
def FileTree.readSource (t : FileTree) (p : Path) (limit : UInt64) :
    Except SourceError String :=
  match t.find p with
  | .error _ => .error (.notFound p)
  | .ok node =>
    if limit.toNat < node.size then .error (.tooLarge node.size limit.toNat)
    else match node with
      | .file content => decodeSource content
      | .directory _ => .error (.access .isADirectory)

end InterfaceSchema
