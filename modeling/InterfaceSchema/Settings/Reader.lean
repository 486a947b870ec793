import InterfaceSchema.Json.Typed
import InterfaceSchema.Settings.Basic

/-!
# Reading settings

Grammars, placements and settings from JSON text. Every field is optional. Fields that nobody knows
are passed over, but among the choices of a project they are read as values first: those of the
grammar are picked from them when all choices have been read.

## Main definitions

* `Grammar.read`, `SignaturePlacement.read`, `Settings.read` — reading a whole text.
-/

namespace InterfaceSchema

open Json Json.Reader

/-- How deep containers may be nested in a document: one less than this. -/
def Json.depthLimit : Nat := 128

/-! ## Grammars -/

namespace Grammar

/-- The fields of a grammar. -/
def fieldNames : List String := ["startMarker", "endMarker", "indexOpener"]

/-- A grammar with one field set, if the field is one of a grammar. -/
def set? (g : Grammar) (name value : String) : Option Grammar :=
  if name = "startMarker" then some { g with startMarker := value }
  else if name = "endMarker" then some { g with endMarker := value }
  else if name = "indexOpener" then some { g with indexOpener := value }
  else none

/-- Take the value of a field. -/
def field (_ : Nat) (g : Grammar) (name : String) : Reader Grammar := do
  if name ∈ fieldNames then
    let value ← stringValue .string
    return (g.set? name value).getD g
  else
    skipValue
    return g

/-- Read a grammar. -/
def read (text : List UInt8) : Except ReadError Grammar :=
  (recordValue "GrammarConfig" fieldNames field depthLimit {}).run text

end Grammar

/-! ## Placements -/

namespace SignaturePlacement

/-- Take the name of a placement, of which the opening quote comes next. -/
def nameValue : Reader SignaturePlacement := do
  skip
  let name ← stringBody
  match ofName? name with
  | some p => return p
  | none => failAfter (.unknownVariant name ["legacy", "uniform"])

/-- Take a placement: its name, or an object with its name as the only key and null as value. The
key is looked for as in any object, so the same is said if the text ends there or if something else
than a string stands in its place; but an object cannot do without it. -/
def jsonValue (depth : Nat) : Reader SignaturePlacement := do
  match ← peekToken? with
  | none => failAt .endInValue
  | some '"' => nameValue
  | some '{' =>
    let _ ← enter depth
    if ← hasKey true then
      let p ← nameValue
      colon
      unitValue
      match ← peekToken? with
      | some '}' => skip; return p
      | some _ => failAfter .expectedValue
      | none => failAfter .endInObject
    else failAt .expectedValue
  | some _ => failAt .expectedValue

/-- Read a placement. -/
def read (text : List UInt8) : Except ReadError SignaturePlacement :=
  (jsonValue depthLimit).run text

end SignaturePlacement

/-! ## Settings -/

/-- What a value is, as a fault names it. -/
def Json.Found.ofJson : Json → Found
  | .null => .null
  | .bool b => .boolean b
  | .number n => .ofNumber n
  | .string s => .string s
  | .array _ => .sequence
  | .object _ => .map

namespace Settings

/-- Settings in the course of reading, with the members of other names, newest first. -/
structure Draft where
  settings : Settings
  others : List (String × Json)

/-- The fields that are read directly. -/
def fieldNames : List String :=
  ["rootDir", "outDir", "extensions", "skipDirs", "skipHidden", "maxFileSize", "indexEncoding"]

/-- Take a list of strings. -/
def stringList (depth : Nat) : Reader (List String) :=
  listOf (stringValue .string) depth

/-- Take the value of a field read directly. -/
def ownField (depth : Nat) (s : Settings) (name : String) : Reader Settings := do
  if name = "rootDir" then return { s with rootDir := ← stringValue .path }
  else if name = "outDir" then return { s with outDir := ← stringValue .path }
  else if name = "extensions" then
    return { s with filter := { s.filter with extensions := ← stringList depth } }
  else if name = "skipDirs" then
    return { s with filter := { s.filter with skipDirs := ← stringList depth } }
  else if name = "skipHidden" then
    return { s with filter := { s.filter with skipHidden := ← boolValue } }
  else if name = "maxFileSize" then return { s with maxFileSize := ← unsignedValue }
  else return { s with placement := ← SignaturePlacement.jsonValue depth }

/-- Take the value of any member. -/
def field (depth : Nat) (d : Draft) (name : String) : Reader Draft := do
  if name ∈ fieldNames then return { d with settings := ← ownField depth d.settings name }
  else return { d with others := (name, ← anyValue depth) :: d.others }

/-- Pick the fields of a grammar from members in order. -/
def pickGrammar (seen : List String) (g : Grammar) : List (String × Json) → Except Fault Grammar
  | [] => .ok g
  | (name, v) :: rest =>
    if name ∈ Grammar.fieldNames then
      if name ∈ seen then .error (.duplicateField name)
      else match v with
        | .string s => pickGrammar (name :: seen) ((g.set? name s).getD g) rest
        | v => .error (.invalidType (.ofJson v) .string)
    else pickGrammar seen g rest

/-- Take the object of the choices. -/
def optionsValue (depth : Nat) : Reader Settings := do
  match ← peekToken? with
  | none => failAt .endInValue
  | some '{' =>
    let d ← recordObject fieldNames field depth ⟨{}, []⟩
    match pickGrammar [] d.settings.grammar d.others.reverse with
    | .ok g => return { d.settings with grammar := g }
    | .error fault => failAfter fault
  | some _ => wrongType (.record "ProjectOptions")

/-- Take the value of a field of the document. -/
def documentField (depth : Nat) (s : Settings) (name : String) : Reader Settings := do
  if name = "options" then optionsValue depth
  else
    skipValue
    return s

/-- Read settings. -/
def read (text : List UInt8) : Except ReadError Settings :=
  (recordValue "ProjectConfig" ["options"] documentField depthLimit {}).run text

end Settings

end InterfaceSchema
