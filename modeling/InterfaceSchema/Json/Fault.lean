import InterfaceSchema.Decimal.Shortest
import InterfaceSchema.Text.Quoted

/-!
# Faults of JSON texts

Why a text cannot be read as JSON, or not as the kind of value that was asked for, and where in
the text this shows.

## Main definitions

* `Fault` — the reasons, and `Fault.message`, their wording.
* `Stop` — a reason with the number of bytes that were not reached.
* `ReadError` — a reason with line and column.
-/

namespace InterfaceSchema.Json

/-- What was asked for. -/
inductive Expected where
  | string
  | path
  | sequence
  | boolean
  | unsigned
  | unit
  | record (name : String)
  deriving DecidableEq, Repr

/-- The name of what was asked for. -/
def Expected.text : Expected → String
  | .string => "a string"
  | .path => "path string"
  | .sequence => "a sequence"
  | .boolean => "a boolean"
  | .unsigned => "u64"
  | .unit => "unit"
  | .record name => "struct " ++ name

/-- What was found instead. -/
inductive Found where
  | null
  | boolean (b : Bool)
  | integer (n : Int)
  | float (negative : Bool) (magnitude : Binary64)
  | string (s : String)
  | sequence
  | map
  deriving DecidableEq, Repr

/-- The name of what was found. -/
def Found.text : Found → String
  | .null => "null"
  | .boolean b => "boolean \x60" ++ (if b then "true" else "false") ++ "\x60"
  | .integer n => "integer \x60" ++ toString n ++ "\x60"
  | .float negative x => "floating point \x60" ++ String.ofList (x.text negative) ++ "\x60"
  | .string s => "string " ++ quoted s
  | .sequence => "sequence"
  | .map => "map"

/-- Why a text cannot be read. -/
inductive Fault where
  | endInValue
  | endInObject
  | endInList
  | endInString
  | expectedValue
  | expectedIdent
  | expectedColon
  | expectedObjectComma
  | expectedListComma
  | keyNotString
  | trailingComma
  | trailingCharacters
  | invalidNumber
  | numberOutOfRange
  | controlCharacter
  | invalidEscape
  | unexpectedEndOfEscape
  | loneSurrogate
  | invalidCodePoint
  | recursionLimit
  | invalidType (found : Found) (expected : Expected)
  | invalidValue (found : Found) (expected : Expected)
  | duplicateField (name : String)
  | unknownVariant (name : String) (known : List String)
  deriving DecidableEq, Repr

/-- A name between grave accents. -/
def ticked (name : String) : String := "\x60" ++ name ++ "\x60"

/-- The wording of a fault. -/
def Fault.message : Fault → String
  | .endInValue => "EOF while parsing a value"
  | .endInObject => "EOF while parsing an object"
  | .endInList => "EOF while parsing a list"
  | .endInString => "EOF while parsing a string"
  | .expectedValue => "expected value"
  | .expectedIdent => "expected ident"
  | .expectedColon => "expected " ++ ticked ":"
  | .expectedObjectComma => "expected " ++ ticked "," ++ " or " ++ ticked "\x7d"
  | .expectedListComma => "expected " ++ ticked "," ++ " or " ++ ticked "]"
  | .keyNotString => "key must be a string"
  | .trailingComma => "trailing comma"
  | .trailingCharacters => "trailing characters"
  | .invalidNumber => "invalid number"
  | .numberOutOfRange => "number out of range"
  | .controlCharacter => "control character (\\u0000-\\u001F) found while parsing a string"
  | .invalidEscape => "invalid escape"
  | .unexpectedEndOfEscape => "unexpected end of hex escape"
  | .loneSurrogate => "lone leading surrogate in hex escape"
  | .invalidCodePoint => "invalid unicode code point"
  | .recursionLimit => "recursion limit exceeded"
  | .invalidType found expected =>
    "invalid type: " ++ found.text ++ ", expected " ++ expected.text
  | .invalidValue found expected =>
    "invalid value: " ++ found.text ++ ", expected " ++ expected.text
  | .duplicateField name => "duplicate field " ++ ticked name
  | .unknownVariant name known =>
    "unknown variant " ++ ticked name ++ ", expected " ++ " or ".intercalate (known.map ticked)

/-- A fault, and how many bytes of the text were left at the point where it showed. -/
structure Stop where
  fault : Fault
  left : Nat
  deriving DecidableEq, Repr

/-- A fault with its place: lines are counted from one, and the column is the number of bytes
since the last line end. -/
structure ReadError where
  fault : Fault
  line : Nat
  column : Nat
  deriving DecidableEq, Repr

/-- The place of a fault in the text. -/
def Stop.locate (text : List UInt8) (stop : Stop) : ReadError :=
  let reached := text.take (text.length - stop.left)
  { fault := stop.fault
    line := reached.count 0x0A + 1
    column := (reached.reverse.takeWhile (· != 0x0A)).length }

/-- The wording of a fault with its place. -/
def ReadError.message (e : ReadError) : String :=
  e.fault.message ++ " at line " ++ toString e.line ++ " column " ++ toString e.column

end InterfaceSchema.Json
