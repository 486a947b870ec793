import InterfaceSchema.Json.Printer

/-!
# Checking documents

What the meta-schema of draft-07 demands of documents of our shape, the values of schemas: types
come from a list of seven, and no required name is repeated. A node's properties are looked at
first, in the order in which the value lists them, then its required names, then its type; the first
violation counts. This order and the wording are those of the library that does the check, which is
not described any further here.

## Main definitions

* `Violation` — what a document may do wrong.
* `Json.firstViolation?` — the first violation in a document.
* `Validator`, `draft07` — a check with a reason for its refusal, and the check by the meta-schema
  as far as it concerns documents of our shape.
-/

namespace InterfaceSchema

/-- What a document may do wrong. -/
inductive Violation where
  /-- A type that is none of the seven. -/
  | unknownType (type : Json)
  /-- Required names with a repetition. -/
  | repeatedRequired (required : Json)

/-- The reason given for a refusal. -/
def Violation.message : Violation → String
  | .unknownType type =>
    type.compact ++ " is not valid under any of the schemas listed in the 'anyOf' keyword"
  | .repeatedRequired required => required.compact ++ " has non-unique elements"

/-- The types of draft-07. -/
def simpleTypes : List String :=
  ["array", "boolean", "integer", "null", "number", "object", "string"]

namespace Json

/-- The string that a value is. -/
def string? : Json → Option String
  | .string s => some s
  | _ => none

/-- The strings that an array of strings holds. -/
def strings? : Json → Option (List String)
  | .array items => items.mapM string?
  | _ => none

/-- A violation by the type of a node. -/
def typeViolation? (members : List (String × Json)) : Option Violation := do
  let type ← member? "type" members
  let name ← type.string?
  if name ∈ simpleTypes then none else some (.unknownType type)

/-- A violation by the required names of a node. -/
def requiredViolation? (members : List (String × Json)) : Option Violation := do
  let required ← member? "required" members
  let names ← required.strings?
  if names.Nodup then none else some (.repeatedRequired required)

mutual

/-- The first violation in a node. -/
def firstViolation? : Json → Option Violation
  | .object members =>
    propertiesViolation? members <|> requiredViolation? members <|> typeViolation? members
  | _ => none

/-- The first violation below the member that holds a node's properties. -/
def propertiesViolation? : List (String × Json) → Option Violation
  | [] => none
  | (k, v) :: rest => if k = "properties" then v.childrenViolation? else propertiesViolation? rest

/-- The first violation in the nodes that an object's members are. -/
def childrenViolation? : Json → Option Violation
  | .object members => membersViolation? members
  | _ => none

/-- The first violation in a list of nodes. -/
def membersViolation? : List (String × Json) → Option Violation
  | [] => none
  | (_, v) :: rest => v.firstViolation? <|> membersViolation? rest

end

end Json

/-- A check of documents: the reason for the refusal, or none. -/
abbrev Validator := Json → Option String

/-- The check by the meta-schema of draft-07, for documents of our shape. Of any other document the
meta-schema demands more: there are further keywords, and the members named here may be wrong in
other ways. The order of the checks and the wording are taken to be those of the library. -/
def draft07 : Validator :=
  fun document => document.firstViolation?.map Violation.message

/-- The check that refuses nothing. -/
def acceptAll : Validator :=
  fun _ => none

/-- The check that refuses everything for one reason. -/
def rejectAll (reason : String) : Validator :=
  fun _ => some reason

end InterfaceSchema
