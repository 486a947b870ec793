/-!
# Double precision numbers

Non-negative finite numbers of the format binary64, as a significand and a power of two, with
rounding to the nearest and ties to even.

## Main definitions

* `Binary64.ofRatio` — the number nearest to a quotient of natural numbers.
* `Binary64.scaleTen` — multiplication or division by a power of ten, step by step in the format.
-/

namespace InterfaceSchema

/-- A power of two. -/
def twoPow (n : Nat) : Nat := Nat.pow 2 n

/-- A power of ten. -/
def tenPow (n : Nat) : Nat := Nat.pow 10 n

/-- The number `significand * 2 ^ exponent`. The significand has 53 bits unless the exponent is
the least one. -/
structure Binary64 where
  significand : Nat
  exponent : Int
  deriving DecidableEq, Repr

namespace Binary64

/-- The least exponent of the format. -/
def minExponent : Int := -1074

/-- The greatest exponent of the format. -/
def maxExponent : Int := 971

/-- The number zero. -/
def zero : Binary64 := ⟨0, minExponent⟩

/-- The natural number nearest to `num / den`; of two, the even one. -/
def roundDiv (num den : Nat) : Nat :=
  let quotient := num / den
  let rest := num % den
  if den < 2 * rest ∨ (den = 2 * rest ∧ quotient % 2 = 1) then quotient + 1 else quotient

/-- A quotient scaled down by `2 ^ e`, as numerator and denominator. -/
def scaleTwo (num den : Nat) (e : Int) : Nat × Nat :=
  if 0 ≤ e then (num, den * twoPow e.toNat) else (num * twoPow (-e).toNat, den)

/-- The exponent at which `num / den` has a significand of 53 bits, or the least one. -/
def fitExponent (num den : Nat) : Int :=
  let estimate : Int := Nat.log2 num - Nat.log2 den - 52
  let guess := if estimate < minExponent then minExponent else estimate
  let (n, d) := scaleTwo num den guess
  if n / d < twoPow 52 ∧ minExponent < guess then guess - 1 else guess

/-- The number of the format nearest to `num / den`, unless it is too large for the format. -/
def ofRatio (num den : Nat) : Option Binary64 :=
  let e := fitExponent num den
  let (n, d) := scaleTwo num den e
  let m := roundDiv n d
  let result : Binary64 := if m = twoPow 53 then ⟨twoPow 52, e + 1⟩ else ⟨m, e⟩
  if result.exponent ≤ maxExponent then some result else none

/-- The number nearest to a natural number. -/
def ofNat (n : Nat) : Option Binary64 :=
  ofRatio n 1

/-- The number nearest to `significand * 2 ^ exponent / den`. -/
def ofScaled (significand : Nat) (exponent : Int) (den : Nat) : Option Binary64 :=
  let (n, d) := scaleTwo significand den (-exponent)
  ofRatio n d

/-- The product, rounded. -/
def mul (x y : Binary64) : Option Binary64 :=
  ofScaled (x.significand * y.significand) (x.exponent + y.exponent) 1

/-- The quotient by a number other than zero, rounded. -/
def div (x y : Binary64) : Option Binary64 :=
  ofScaled x.significand (x.exponent - y.exponent) y.significand

/-- Division by `10 ^ e`, in steps of at most `10 ^ 308`, the greatest power the format holds. -/
def divTen (x : Binary64) (e : Nat) : Option Binary64 :=
  if x.significand = 0 then some x
  else if h : e ≤ 308 then do x.div (← ofNat (tenPow e))
  else do (← x.div (← ofNat (tenPow 308))).divTen (e - 308)
termination_by e
decreasing_by omega

/-- Multiplication by `10 ^ e`. -/
def mulTen (x : Binary64) (e : Nat) : Option Binary64 :=
  if x.significand = 0 then some x
  else if e ≤ 308 then do x.mul (← ofNat (tenPow e))
  else none

/-- Multiplication or division by a power of ten, unless the result is too large. -/
def scaleTen (x : Binary64) (e : Int) : Option Binary64 :=
  if 0 ≤ e then x.mulTen e.toNat else x.divTen (-e).toNat

end Binary64

end InterfaceSchema
