/-!
# Grammar

The literals that single out declarations in a text, and the choice of where a compiled schema
keeps index signatures.
-/

namespace InterfaceSchema

/-- The literals that the scanner compares lines and tokens with. -/
structure Grammar where
  /-- The trimmed line that opens a block. -/
  startMarker : String := "/* SCHEMA */"
  /-- The trimmed line that closes a block. -/
  endMarker : String := "/* END SCHEMA */"
  /-- The name, without its colon, that opens an index signature. -/
  indexOpener : String := "[key"
  deriving DecidableEq, Repr, Inhabited

/-- Where the index signatures of nested objects are kept in a schema. Those of the root are
always kept in its comment. -/
inductive SignaturePlacement where
  /-- In the description of a nested object. -/
  | legacy
  /-- In the comment of a nested object, as at the root. -/
  | uniform
  deriving DecidableEq, Repr, Inhabited

/-- The name of a placement in settings and on the command line. -/
def SignaturePlacement.name : SignaturePlacement → String
  | .legacy => "legacy"
  | .uniform => "uniform"

/-- The placement of a given name. -/
def SignaturePlacement.ofName? (name : String) : Option SignaturePlacement :=
  if name = "legacy" then some .legacy
  else if name = "uniform" then some .uniform
  else none

end InterfaceSchema
