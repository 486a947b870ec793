import InterfaceSchema.Json.Fault
import InterfaceSchema.Text.Utf8

/-!
# Reading JSON text byte by byte

A reader takes bytes from the front of a text. The text that is left is its whole state, so a
fault is placed by how much is left: after the bytes taken so far, or one byte further where the
next byte is to blame.

## Main definitions

* `Reader` — readers, and `Reader.run`, reading a whole text.
* `word`, `stringBody` — the rest of a word, and a string behind its opening quote.
-/

namespace InterfaceSchema.Json

/-- A reader: its state is the text that is left. -/
abbrev Reader (α : Type) := StateT (List UInt8) (Except Stop) α

namespace Reader

variable {α : Type}

/-- Fail behind the bytes taken so far. -/
def failAfter (fault : Fault) : Reader α := do
  throw ⟨fault, (← get).length⟩

/-- Fail because of the next byte, or because there is none. -/
def failAt (fault : Fault) : Reader α := do
  throw ⟨fault, (← get).length - 1⟩

/-- The character that a byte below 0x80 stands for. No other byte gives one of these. -/
def charOf (b : UInt8) : Char := Char.ofNat b.toNat

/-- The next byte, as a character. It is not taken. -/
def peek? : Reader (Option Char) :=
  return (← get).head?.map charOf

/-- Take the next byte. -/
def skip : Reader Unit :=
  modify List.tail

/-- Take and return the next byte, as a character. -/
def next? : Reader (Option Char) := do
  let c ← peek?
  skip
  return c

/-- The blanks of JSON. -/
def isSpace (b : UInt8) : Bool :=
  b == 0x20 || b == 0x0A || b == 0x09 || b == 0x0D

/-- Take the blanks that come next. -/
def skipSpace : Reader Unit :=
  modify (List.dropWhile isSpace)

/-- The next byte that is not a blank, as a character. It is not taken. -/
def peekToken? : Reader (Option Char) := do
  skipSpace
  peek?

/-- How many bytes are left. -/
def left : Reader Nat :=
  return (← get).length

/-- Read a whole text: a value, then nothing but blanks. -/
def run (reader : Reader α) (text : List UInt8) : Except ReadError α :=
  let whole : Reader α := do
    let value ← reader
    match ← peekToken? with
    | none => return value
    | some _ => failAt .trailingCharacters
  match whole text with
  | .ok (value, _) => .ok value
  | .error stop => .error (stop.locate text)

end Reader

open Reader

/-! ## Words -/

/-- Take the given characters, which complete a word. -/
def word : List Char → Reader Unit
  | [] => return
  | expected :: rest => do
    match ← next? with
    | none => failAfter .endInValue
    | some c => if c = expected then word rest else failAfter .expectedIdent

/-! ## Strings -/

/-- The value of a hexadecimal digit. -/
def hexDigit? (b : UInt8) : Option Nat :=
  if 0x30 ≤ b ∧ b ≤ 0x39 then some (b.toNat - 0x30)
  else if 0x41 ≤ b ∧ b ≤ 0x46 then some (b.toNat - 0x37)
  else if 0x61 ≤ b ∧ b ≤ 0x66 then some (b.toNat - 0x57)
  else none

/-- Take four hexadecimal digits. -/
def hexEscape : Reader Nat := do
  match ← get with
  | a :: b :: c :: d :: rest =>
    set rest
    match hexDigit? a, hexDigit? b, hexDigit? c, hexDigit? d with
    | some a, some b, some c, some d => return ((a * 16 + b) * 16 + c) * 16 + d
    | _, _, _, _ => failAfter .invalidEscape
  | _ =>
    set ([] : List UInt8)
    failAfter .endInString

/-- Take the given character, which has to follow the first half of a surrogate pair. -/
def pairPart (expected : Char) : Reader Unit := do
  match ← peek? with
  | none => failAfter .endInString
  | some c =>
    skip
    if c = expected then return else failAfter .unexpectedEndOfEscape

/-- Take what follows `\u`: one code unit, or a surrogate pair. -/
def unicodeEscape : Reader Char := do
  let unit ← hexEscape
  if 0xDC00 ≤ unit ∧ unit ≤ 0xDFFF then failAfter .loneSurrogate
  else if 0xD800 ≤ unit ∧ unit ≤ 0xDBFF then
    pairPart '\\'
    pairPart 'u'
    let second ← hexEscape
    if 0xDC00 ≤ second ∧ second ≤ 0xDFFF then
      return Char.ofNat ((unit - 0xD800) * 0x400 + (second - 0xDC00) + 0x10000)
    else failAfter .loneSurrogate
  else return Char.ofNat unit

/-- The character that a short escape stands for. -/
def shortEscape? (c : Char) : Option Char :=
  if c = '"' then some '"'
  else if c = '\\' then some '\\'
  else if c = '/' then some '/'
  else if c = 'b' then some '\x08'
  else if c = 'f' then some '\x0c'
  else if c = 'n' then some '\n'
  else if c = 'r' then some '\r'
  else if c = 't' then some '\t'
  else none

/-- Take what follows a backslash. -/
def escapeBody : Reader Char := do
  match ← next? with
  | none => failAfter .endInString
  | some 'u' => unicodeEscape
  | some c =>
    match shortEscape? c with
    | some c => return c
    | none => failAfter .invalidEscape

/-- The bytes of a string up to its closing quote, escapes replaced by what they stand for. The
bytes read before are given newest first. Every step takes a byte at least, so the text that the
string is read from has one for each. -/
def stringBytes (before : List UInt8) : List UInt8 → Reader (List UInt8)
  | [] => failAfter .endInString
  | _ :: text => do
    match ← get with
    | [] => failAfter .endInString
    | b :: _ =>
      if b = 0x22 then return before.reverse
      else if b = 0x5C then
        skip
        let c ← escapeBody
        stringBytes ((String.utf8EncodeChar c).reverse ++ before) text
      else
        if b < 0x20 then
          skip
          failAfter .controlCharacter
        else
          skip
          stringBytes (b :: before) text

/-- Take a string behind its opening quote, with the closing one. Damage in the bytes read is
placed by counting back from behind the closing quote, a byte of the text for each byte that is
damaged or comes after the damage. -/
def stringBody : Reader String := do
  let bytes ← stringBytes [] (← get)
  skip
  match Utf8.decode? bytes with
  | some cs => return String.ofList cs
  | none => throw ⟨.invalidCodePoint, (← left) + (Utf8.fromDamage bytes).length⟩

end InterfaceSchema.Json
