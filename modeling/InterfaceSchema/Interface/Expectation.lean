/-!
# Expectations

What a declaration body may continue with, given the tokens read so far.
-/

namespace InterfaceSchema

/-- What comes next, and what was read of the entry begun. -/
inductive Expectation where
  /-- A member's name, an index opener or a closing brace. -/
  | entry
  /-- The key type of an index signature. -/
  | indexKey
  /-- The value type of an index signature with the given key type. -/
  | indexValue (key : String)
  /-- The type of the member of the given name. -/
  | memberType (name : String)
  deriving DecidableEq, Repr, Inhabited

/-- The name of an expectation in the reports on ignored tokens. -/
def Expectation.label : Expectation → String
  | .entry => "None"
  | .indexKey => "FoundIndex"
  | .indexValue _ => "IndexValue"
  | .memberType _ => "FoundProp"

end InterfaceSchema
