import InterfaceSchema.Interface.Basic
import InterfaceSchema.Json.Printer

/-!
# Interface trees as JSON

An interface is an object with its name, its members and its index signatures; a type given by one
word is a string, a nested object an object again.
-/

namespace InterfaceSchema

mutual

/-- An interface as JSON. -/
def Interface.toJson : Interface → Json
  | ⟨name, ⟨members⟩, signatures⟩ =>
    .object [
      ("name", .string name),
      ("props", .object (membersToJson members)),
      ("indices", .array (signaturesToJson signatures))]

/-- A type as JSON. -/
def TypeExpr.toJson : TypeExpr → Json
  | .named token => .string token
  | .object inner => inner.toJson

/-- Members as the members of a JSON object. -/
def membersToJson : List (String × TypeExpr) → List (String × Json)
  | [] => []
  | (k, t) :: rest => (k, t.toJson) :: membersToJson rest

/-- An index signature as JSON. -/
def IndexSignature.toJson : IndexSignature → Json
  | ⟨key, value⟩ => .object [("key", .string key), ("value", value.toJson)]

/-- Index signatures as the items of a JSON array. -/
def signaturesToJson : List IndexSignature → List Json
  | [] => []
  | s :: rest => s.toJson :: signaturesToJson rest

end

/-- Index signatures as the text under which a schema keeps them. -/
def encodeSignatures (signatures : List IndexSignature) : String :=
  (Json.object [("indexSignatures", .array (signaturesToJson signatures))]).compact

end InterfaceSchema
