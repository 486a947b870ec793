import InterfaceSchema.Interface.Expectation
import InterfaceSchema.Path

/-!
# Events

What is reported on the way from texts to schemas besides the result.
-/

namespace InterfaceSchema

/-- Something worth reporting. -/
inductive Event where
  /-- A text ended inside a block that had captured so many lines. -/
  | unterminatedBlock (lines : Nat)
  /-- A token did not fit what was expected. -/
  | ignoredToken (interface : String) (expecting : Expectation) (token : String)
  /-- A declaration ended inside so many nested objects. -/
  | unclosedObjects (interface : String) (count : Nat)
  /-- There is no settings file. -/
  | defaultSettings (path : Path)
  /-- So many sources were found under a directory. -/
  | discovered (root : Path) (count : Nat)
  /-- So many interfaces were read from a file. -/
  | scanned (file : Path) (interfaces : Nat)
  /-- A declaration without a name was passed over. -/
  | namelessDeclaration (file : Path)
  /-- A schema was written. -/
  | wrote (title : String) (source : Path) (out : Path)
  deriving DecidableEq, Repr

/-- How much an event matters. -/
inductive Level where
  | debug
  | info
  deriving DecidableEq, Repr

/-- Written schemas are of interest to everybody, all else only when looking for a cause. -/
def Event.level : Event → Level
  | .wrote .. => .info
  | _ => .debug

/-- The line that reports an event. -/
def Event.message : Event → String
  | .unterminatedBlock _ => "dropping unterminated schema block"
  | .ignoredToken .. => "ignoring unexpected token"
  | .unclosedObjects .. => "discarding unclosed nested objects"
  | .defaultSettings _ => "no config file, using defaults"
  | .discovered .. => "discovered sources"
  | .scanned .. => "scanned source"
  | .namelessDeclaration _ => "skipping declaration without a name"
  | .wrote .. => "wrote schema"

end InterfaceSchema
