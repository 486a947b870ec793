import InterfaceSchema.FileTree.Access
import InterfaceSchema.Schema.Basic
import InterfaceSchema.Schema.Draft07
import InterfaceSchema.Text.Quoted

/-!
# Publishing schemas

A schema is written to a file named by its title. The title must be a plain file name, and a
validator must accept the document; otherwise nothing is written.

## Main definitions

* `Schema.safeFileName?` — the name of the file, if the title is a plain name.
* `FileTree.publish` — checking and writing a schema.
-/

namespace InterfaceSchema

/-- Why a schema is not published. -/
inductive PublishError where
  | unsafeTitle (title : String)
  | rejected (title reason : String)
  | write (path : Path) (reason : AccessError)
  deriving DecidableEq, Repr

/-- The wording of a reason. -/
def PublishError.message : PublishError → String
  | .unsafeTitle title =>
    "Unsafe schema title " ++ quoted title ++ ": must be a single file name"
  | .rejected title reason => "Invalid schema: " ++ title ++ " (" ++ reason ++ ")"
  | .write path reason => "Failed to write schema " ++ path.text ++ ": " ++ reason.message

/-- Whether two dots stand side by side. -/
def hasDoubleDot : List Char → Bool
  | '.' :: '.' :: _ => true
  | _ :: rest => hasDoubleDot rest
  | [] => false

/-- The name of the file for a schema, if its title names a file in one directory: it has no
slashes and no double dots, and the name is the last and only part of itself read as a path. -/
def Schema.safeFileName? (s : Schema) : Option String :=
  let title := s.title.toList
  let single := (Path.mk s.fileName).fileName? = some s.fileName
  if title.isEmpty || title.contains '/' || title.contains '\\' || hasDoubleDot title || !single
  then none
  else some s.fileName

/-- The path of the written schema and the tree that holds it. -/
def FileTree.publish (t : FileTree) (check : Validator) (outDir : Path) (s : Schema) :
    Except PublishError (Path × FileTree) :=
  match s.safeFileName? with
  | none => .error (.unsafeTitle s.title)
  | some name =>
    match check s.value with
    | some reason => .error (.rejected s.title reason)
    | none =>
      let path := outDir.join name
      match t.write path (utf8 s.text) with
      | .ok written => .ok (path, written)
      | .error reason => .error (.write path reason)

end InterfaceSchema
