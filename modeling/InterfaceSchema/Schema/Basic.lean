import InterfaceSchema.FieldMap
import InterfaceSchema.Json.Printer

/-!
# Schema documents

JSON Schema documents of the shape that interfaces compile to: an object with described
properties, some of them objects again.

## Main definitions

* `Schema`, `PropertySchema` — a document and the schema of one property.
* `Schema.toJson` — the document with its keys in their declared order.
* `Schema.value`, `Schema.text` — the value that is validated, and the text that is written.
-/

namespace InterfaceSchema

/-- The schema of one property. -/
structure PropertySchema where
  description : String
  type : String
  /-- Present for objects only. -/
  properties : Option (FieldMap PropertySchema)
  comment : Option String

/-- The dialect that documents are written in. -/
def Schema.draft07Dialect : String := "http://json-schema.org/draft-07/schema#"

/-- A schema document. -/
structure Schema where
  dialect : String := Schema.draft07Dialect
  title : String
  description : Option String
  type : String
  properties : FieldMap PropertySchema
  /-- The properties that an instance must have. -/
  required : List String
  comment : Option String

/-- The type of objects. -/
def Schema.objectType : String := "object"

/-- A property with a type of its own and nothing else. -/
def PropertySchema.leaf (type : String) : PropertySchema := ⟨"", type, none, none⟩

/-- A property that is an object without properties. -/
def PropertySchema.object : PropertySchema := ⟨"", Schema.objectType, some ∅, none⟩

/-- The document of an object without properties. -/
def Schema.ofTitle (title : String) : Schema :=
  ⟨draft07Dialect, title, none, objectType, ∅, [], none⟩

instance : Inhabited PropertySchema := ⟨.leaf ""⟩

instance : Inhabited Schema := ⟨.ofTitle ""⟩

/-- A member that may be absent. -/
def optionalMember (key : String) : Option String → List (String × Json)
  | none => []
  | some s => [(key, .string s)]

mutual

/-- The schema of a property as JSON. -/
def PropertySchema.toJson : PropertySchema → Json
  | ⟨description, type, properties, comment⟩ =>
    .object ([("description", .string description), ("type", .string type)]
      ++ nestedMember properties ++ optionalMember "$comment" comment)

/-- The member that holds the properties of an object. -/
def nestedMember : Option (FieldMap PropertySchema) → List (String × Json)
  | none => []
  | some ⟨entries⟩ => [("properties", .object (propertiesToJson entries))]

/-- Properties as the members of a JSON object. -/
def propertiesToJson : List (String × PropertySchema) → List (String × Json)
  | [] => []
  | (k, p) :: rest => (k, p.toJson) :: propertiesToJson rest

end

namespace Schema

/-- The document as JSON, its keys in their declared order. -/
def toJson (s : Schema) : Json :=
  .object ([("$schema", .string s.dialect), ("title", .string s.title)]
    ++ optionalMember "description" s.description
    ++ [("type", .string s.type),
      ("properties", .object (propertiesToJson s.properties.entries)),
      ("required", .array (s.required.map .string))]
    ++ optionalMember "$comment" s.comment)

/-- The value of the document, in which the order of keys does not count. -/
def value (s : Schema) : Json :=
  s.toJson.sortKeys

/-- The text of the document as it is written to a file. -/
def text (s : Schema) : String :=
  s.toJson.indented

/-- The name of the file for the document. -/
def fileName (s : Schema) : String :=
  s.title ++ ".json"

end Schema

end InterfaceSchema
