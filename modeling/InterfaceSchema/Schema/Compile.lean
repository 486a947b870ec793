import InterfaceSchema.Grammar
import InterfaceSchema.Interface.Json
import InterfaceSchema.Schema.Basic

/-!
# Compiling interfaces

An interface becomes a document with one property for each member. JSON Schema has no place for an
index signature, so those of a level are kept as text in a field that has no other use.

## Main definitions

* `Interface.compile` — the document of an interface.
* `Interface.compileNested` — the schema of a nested object.
-/

namespace InterfaceSchema

/-- The text that keeps the index signatures of a level, if it has any. -/
def signatureText (signatures : List IndexSignature) : Option String :=
  if signatures.isEmpty then none else some (encodeSignatures signatures)

mutual

/-- The schema of a nested object. -/
def Interface.compileNested (placement : SignaturePlacement) : Interface → PropertySchema
  | ⟨_, ⟨members⟩, signatures⟩ =>
    let properties := some ⟨compileMembers placement members⟩
    let kept := signatureText signatures
    match placement with
    | .legacy => ⟨kept.getD "", Schema.objectType, properties, none⟩
    | .uniform => ⟨"", Schema.objectType, properties, kept⟩

/-- The schema of a member of the given type. -/
def TypeExpr.compile (placement : SignaturePlacement) : TypeExpr → PropertySchema
  | .named token => .leaf token
  | .object inner => inner.compileNested placement

/-- The schemas of members, under the same names. -/
def compileMembers (placement : SignaturePlacement) :
    List (String × TypeExpr) → List (String × PropertySchema)
  | [] => []
  | (k, t) :: rest => (k, t.compile placement) :: compileMembers placement rest

end

/-- The document of an interface: every member is required. -/
def Interface.compile (placement : SignaturePlacement) (i : Interface) : Schema where
  title := i.name
  description := none
  type := Schema.objectType
  properties := ⟨compileMembers placement i.members.entries⟩
  required := i.members.keys
  comment := signatureText i.signatures

end InterfaceSchema
