import InterfaceSchema.Decimal.Binary64

/-!
# Shortest decimal text

The fewest decimal digits that read back as a given double precision number, and their text:
positional from `10 ^ -5` up to `10 ^ 16`, with an exponent otherwise.

## Main definitions

* `Binary64.shortest` — the digits and their power of ten.
* `Binary64.text` — the text of a number with its sign.
-/

namespace InterfaceSchema.Binary64

/-- A positive number in quarters of its unit: the number, and the ends of the interval of the
reals that round to it. The lower end is nearer where the number below has a finer unit. -/
structure Quarters where
  value : Nat
  lower : Nat
  upper : Nat
  exponent : Int
  inclusive : Bool

/-- The interval of a positive number. -/
def quarters (x : Binary64) : Quarters where
  value := 4 * x.significand
  lower := 4 * x.significand - (if x.significand = twoPow 52 ∧ minExponent < x.exponent then 1 else 2)
  upper := 4 * x.significand + 2
  exponent := x.exponent - 2
  inclusive := x.significand % 2 == 0

/-- `n * 2 ^ e / 10 ^ k` as numerator and denominator. -/
def onGrid (n : Nat) (e k : Int) : Nat × Nat :=
  let (num, den) := scaleTwo n 1 (-e)
  if 0 ≤ k then (num, den * tenPow k.toNat) else (num * tenPow (-k).toNat, den)

/-- Whether `digit * 10 ^ k` rounds to the number. -/
def Quarters.admits (q : Quarters) (digit : Nat) (k : Int) : Bool :=
  let (low, den) := onGrid q.lower q.exponent k
  let (high, _) := onGrid q.upper q.exponent k
  let point := digit * den
  if q.inclusive then low ≤ point && point ≤ high else low < point && point < high

/-- The multiple of `10 ^ k` that rounds to the number, if one does; of the two next to it the
nearer, and the even one of two equally near. -/
def Quarters.nearest? (q : Quarters) (k : Int) : Option Nat :=
  let (num, den) := onGrid q.value q.exponent k
  let below := num / den
  let rest := num % den
  let first := if 2 * rest < den ∨ (2 * rest = den ∧ below % 2 = 0) then below else below + 1
  let second := if first = below then below + 1 else below
  if q.admits first k then some first else if q.admits second k then some second else none

/-- The greatest `e` with `10 ^ e` not above the number, for a positive number. -/
def decimalExponent (x : Binary64) : Int :=
  let (num, den) := scaleTwo x.significand 1 (-x.exponent)
  if den ≤ num then ((Nat.toDigits 10 (num / den)).length : Int) - 1
  else -(((List.range 400).find? (fun j => decide (den ≤ num * tenPow j))).getD 0 : Nat)

/-- Remove zeros at the end of a number's digits, raising its power of ten instead. -/
def stripZeros : Nat → Nat × Int → Nat × Int
  | 0, r => r
  | fuel + 1, (d, k) => if d ≠ 0 ∧ d % 10 = 0 then stripZeros fuel (d / 10, k + 1) else (d, k)

/-- The fewest digits that read back as the positive number `x`, and their power of ten. -/
def shortest (x : Binary64) : Nat × Int :=
  let q := x.quarters
  let e := x.decimalExponent
  let grids := (List.range 17).map fun (n : Nat) => e - n
  stripZeros 18 ((grids.findSome? fun k => (q.nearest? k).map (·, k)).getD (0, 0))

/-- The text of a positive number. -/
def positiveText (x : Binary64) : List Char :=
  let (d, k) := x.shortest
  let digits := Nat.toDigits 10 d
  let e : Int := k + digits.length - 1
  if -5 ≤ e ∧ e < 16 then
    if e < 0 then ['0', '.'] ++ List.replicate ((-e).toNat - 1) '0' ++ digits
    else if digits.length ≤ e.toNat + 1 then
      digits ++ List.replicate (e.toNat + 1 - digits.length) '0' ++ ['.', '0']
    else digits.take (e.toNat + 1) ++ '.' :: digits.drop (e.toNat + 1)
  else
    let fraction := if digits.length = 1 then [] else '.' :: digits.drop 1
    let sign := if e < 0 then '-' else '+'
    digits.take 1 ++ fraction ++ ['e', sign] ++ Nat.toDigits 10 e.natAbs

/-- The text of a number with its sign. -/
def text (negative : Bool) (x : Binary64) : List Char :=
  (if negative then ['-'] else []) ++
    if x.significand = 0 then ['0', '.', '0'] else x.positiveText

end InterfaceSchema.Binary64
