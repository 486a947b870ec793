/-!
# UTF-8

Characters as bytes, and bytes as characters. Reading never fails: a machine takes one byte at a
time, and a sequence that cannot be continued is given up as one damaged piece, so that the byte
which ended it is read afresh. Damaged pieces are replaced, or make the strict reading fail.

## Main definitions

* `utf8` — the bytes of a text.
* `Utf8.pieces` — the characters and the damaged pieces of a byte string, in order.
* `Utf8.decodeLossy`, `Utf8.decode?` — reading with a replacement, and strict reading.
* `Utf8.lossyText` — bytes as they are shown.
* `Utf8.fromDamage` — what is left where strict reading fails.
* `Utf8.le` — the order of texts by their bytes.
-/

namespace InterfaceSchema

/-- The bytes of a list of characters. -/
def Utf8.encode (cs : List Char) : List UInt8 :=
  cs.flatMap String.utf8EncodeChar

/-- The bytes of a text. -/
def utf8 (s : String) : List UInt8 :=
  Utf8.encode s.toList

namespace Utf8

/-! ## The machine -/

/-- A character of which some bytes have been read: how many are still owed, between which bounds
the next one has to lie, and the bits read so far. -/
structure Pending where
  owed : Nat
  low : UInt8
  high : UInt8
  bits : Nat
  deriving DecidableEq, Repr

/-- What a byte is where a character may begin. -/
inductive Lead where
  | complete (c : Char)
  | opens (p : Pending)
  | damaged
  deriving DecidableEq, Repr

/-- The lead bytes of UTF-8. The bounds on the second byte rule out overlong forms, surrogates
and values above the last code point. -/
def lead (b : UInt8) : Lead :=
  if b < 0x80 then .complete (Char.ofNat b.toNat)
  else if b < 0xC2 then .damaged
  else if b < 0xE0 then .opens ⟨1, 0x80, 0xBF, b.toNat - 0xC0⟩
  else if b = 0xE0 then .opens ⟨2, 0xA0, 0xBF, b.toNat - 0xE0⟩
  else if b = 0xED then .opens ⟨2, 0x80, 0x9F, b.toNat - 0xE0⟩
  else if b < 0xF0 then .opens ⟨2, 0x80, 0xBF, b.toNat - 0xE0⟩
  else if b = 0xF0 then .opens ⟨3, 0x90, 0xBF, b.toNat - 0xF0⟩
  else if b < 0xF4 then .opens ⟨3, 0x80, 0xBF, b.toNat - 0xF0⟩
  else if b = 0xF4 then .opens ⟨3, 0x80, 0x8F, b.toNat - 0xF0⟩
  else .damaged

/-- The machine between two bytes: the character begun, if any, and what was read before it,
newest first. `none` stands for a damaged piece. -/
structure Machine where
  pending : Option Pending
  output : List (Option Char)

/-- Nothing read yet. -/
def Machine.start : Machine := ⟨none, []⟩

/-- Read `b` where a character may begin. -/
def Machine.begin (output : List (Option Char)) (b : UInt8) : Machine :=
  match lead b with
  | .complete c => ⟨none, some c :: output⟩
  | .opens p => ⟨some p, output⟩
  | .damaged => ⟨none, none :: output⟩

/-- Read one byte. A byte outside the bounds ends the character begun as one damaged piece. -/
def Machine.step (m : Machine) (b : UInt8) : Machine :=
  match m.pending with
  | none => .begin m.output b
  | some p =>
    if p.low ≤ b ∧ b ≤ p.high then
      let bits := p.bits * 64 + (b.toNat - 0x80)
      match p.owed with
      | 0 | 1 => ⟨none, some (Char.ofNat bits) :: m.output⟩
      | owed + 2 => ⟨some ⟨owed + 1, 0x80, 0xBF, bits⟩, m.output⟩
    else .begin (none :: m.output) b

/-- What was read, in order. A character still owed bytes at the end is a damaged piece. -/
def Machine.finish (m : Machine) : List (Option Char) :=
  match m.pending with
  | none => m.output.reverse
  | some _ => (none :: m.output).reverse

/-! ## Reading -/

/-- The characters and damaged pieces of a byte string. A damaged piece is the longest run of
bytes that begins a character without ever completing it, or a byte that begins none. -/
def pieces (bytes : List UInt8) : List (Option Char) :=
  (bytes.foldl Machine.step .start).finish

/-- The character that stands for a damaged piece. -/
def replacement : Char := '\uFFFD'

/-- Read bytes as text, each damaged piece as one replacement character. -/
def decodeLossy (bytes : List UInt8) : List Char :=
  (pieces bytes).map (·.getD replacement)

/-- The text that bytes are read as, each damaged piece as one replacement character. -/
def lossyText (bytes : List UInt8) : String :=
  String.ofList (decodeLossy bytes)

/-- Read bytes as text if no piece is damaged. -/
def decode? (bytes : List UInt8) : Option (List Char) :=
  (pieces bytes).mapM id

/-- The bytes from the first damaged piece on. -/
def fromDamage (bytes : List UInt8) : List UInt8 :=
  bytes.drop (encode (((pieces bytes).takeWhile (·.isSome)).filterMap id)).length

/-! ## Order -/

/-- Order texts by their bytes. -/
def le (s t : String) : Bool :=
  decide (utf8 s ≤ utf8 t)

end Utf8

end InterfaceSchema
