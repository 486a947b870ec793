import InterfaceSchema.Json.Basic
import InterfaceSchema.Json.Reader

/-!
# Reading JSON numbers

Integers of 64 bits are kept as they are, all other numbers in double precision: the digits that
fit into 64 bits are rounded and then scaled by a power of ten.
-/

namespace InterfaceSchema.Json

open Reader

/-- Whether a byte is a decimal digit. -/
def isDigit (b : UInt8) : Bool :=
  0x30 ≤ b && b ≤ 0x39

/-- Take the digits that come next. -/
def digits : Reader (List UInt8) := do
  let text ← get
  set (text.dropWhile isDigit)
  return text.takeWhile isDigit

/-- Append digits to a number as long as it stays below a bound: the number, and how many digits
were appended. -/
def absorb (bound : Nat) (n : Nat) : List UInt8 → Nat × Nat
  | [] => (n, 0)
  | d :: rest =>
    let longer := n * 10 + (d.toNat - 0x30)
    if longer < bound then
      let (m, count) := absorb bound longer rest
      (m, count + 1)
    else (n, 0)

/-- A number in double precision from its significand and its power of ten. -/
def scaled (negative : Bool) (significand : Nat) (exponent : Int) : Reader Number := do
  match (Binary64.ofNat significand).bind (·.scaleTen exponent) with
  | some x => return .float negative x
  | none => failAfter .numberOutOfRange

/-- Take the sign of an exponent. -/
def exponentSign : Reader Bool := do
  match ← peek? with
  | some '+' => skip; return false
  | some '-' => skip; return true
  | _ => return false

/-- Take an exponent from its letter on. An exponent beyond 32 bits means zero, or a number out of
range as soon as the digit is seen that leads there. -/
def exponentPart (negative : Bool) (significand : Nat) (exponent : Int) : Reader Number := do
  skip
  let downwards ← exponentSign
  let ds ← digits
  if ds.isEmpty then
    match ← next? with
    | none => failAfter .endInValue
    | some _ => failAfter .invalidNumber
  else
    let (e, used) := absorb (twoPow 31) 0 ds
    if used = ds.length then
      scaled negative significand (if downwards then exponent - e else exponent + e)
    else if significand ≠ 0 ∧ !downwards then
      throw ⟨.numberOutOfRange, (← left) + (ds.length - used - 1)⟩
    else return .float negative .zero

/-- Take what follows the digits of a number in double precision. -/
def exponentOrEnd (negative : Bool) (significand : Nat) (exponent : Int) : Reader Number := do
  match ← peek? with
  | some 'e' | some 'E' => exponentPart negative significand exponent
  | _ => scaled negative significand exponent

/-- Take a fraction from its point on. Digits that do not fit any more are passed over. -/
def fractionPart (negative : Bool) (significand : Nat) (exponent : Int) : Reader Number := do
  skip
  let ds ← digits
  if ds.isEmpty then
    match ← peek? with
    | none => failAt .endInValue
    | some _ => failAt .invalidNumber
  else
    let (m, used) := absorb (twoPow 64) significand ds
    exponentOrEnd negative m (exponent - used)

/-- The number of an integer text: beyond 64 bits, and for minus zero, in double precision. -/
def integerNumber (negative : Bool) (n : Nat) : Reader Number :=
  if !negative then return .integer n
  else if 0 < n ∧ n ≤ twoPow 63 then return .integer (-n)
  else scaled true n 0

/-- Take a number behind its minus sign, if it has one. -/
def numberBody (negative : Bool) : Reader Number := do
  let ds ← digits
  match ds with
  | [] =>
    match ← next? with
    | none => failAfter .endInValue
    | some _ => failAfter .invalidNumber
  | 0x30 :: second :: rest =>
    set (second :: rest ++ (← get))
    failAt .invalidNumber
  | _ =>
    let (n, used) := absorb (twoPow 64) 0 ds
    let exponent : Int := ds.length - used
    match ← peek? with
    | some '.' => fractionPart negative n exponent
    | some 'e' | some 'E' => exponentPart negative n exponent
    | _ => if exponent = 0 then integerNumber negative n else scaled negative n exponent

end InterfaceSchema.Json
