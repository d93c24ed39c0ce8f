import Collate.Double.Basic

/-!
# Arithmetic on doubles

Sums, products and quotients round to the nearest double, a tie to the one with an even
significand.  All of them go through `Double.ofRatio`, the double nearest to a quotient of
natural numbers, so no rounding happens twice.
-/

namespace Collate.Double

/-- The quotient rounded to the nearest natural number, a half to the even one. -/
def roundHalfEven (num den : Nat) : Nat :=
  let q := num / den
  let twice := 2 * (num % den)
  if den < twice ∨ (twice = den ∧ q % 2 = 1) then q + 1 else q

/-- A quotient of naturals times a power of two, as a numerator and a denominator. -/
def scale (num den : Nat) (power : Int) : Nat × Nat :=
  (num * Nat.pow 2 power.toNat, den * Nat.pow 2 (-power).toNat)

/-- The greatest `e` with `2^e ≤ num / den`, for positive `num` and `den`. -/
def floorLog2 (num den : Nat) : Int :=
  let e : Int := (num.log2 : Int) - den.log2
  let (n, d) := scale num den (-e)
  if n < d then e - 1 else e

/-- The magnitude nearest to `num / den`, where `den` is positive.  The significand counts in
the power of two that leaves it 53 binary digits, or in `2^(-1074)` below that; a carry out of
the significand runs into the exponent field, and past the greatest finite magnitude lies
infinity. -/
def roundedMagnitude (num den : Nat) : Nat :=
  if num = 0 then 0
  else
    let power := max (floorLog2 num den - 52) (-1074)
    let (n, d) := scale num den (-power)
    min ((power + 1074).toNat * fractionSize + roundHalfEven n d) infinityMagnitude

/-- The double nearest to `num / den` in absolute value, with the given sign. -/
def ofRatio (negative : Bool) (num den : Nat) : Double :=
  ofMagnitude negative (roundedMagnitude num den)

/-- The double nearest to a natural number. -/
def ofNat (n : Nat) : Double :=
  ofRatio false n 1

/-- The same number with the opposite sign. -/
def negate (d : Double) : Double :=
  ofMagnitude (!d.isNegative) d.magnitude

/-- A NaN with the quiet bit set. -/
def quieted (d : Double) : Double :=
  ⟨d.bits ||| 0x0008000000000000⟩

/-- What an operation without a numerical answer gives: a quiet NaN with the sign bit set. -/
def invalid : Double :=
  ⟨0xfff8000000000000⟩

/-- The first NaN among two operands, quieted. -/
def nanAmong? (a b : Double) : Option Double :=
  if a.isNaN then some a.quieted else if b.isNaN then some b.quieted else none

/-- The sum of two finite doubles.  A sum of zero is `-0` only when both terms are negative. -/
def addFinite (a b : Double) : Double :=
  let s := a.value + b.value
  let negative := if s = 0 then a.isNegative && b.isNegative else decide (s < 0)
  ofRatio negative s.natAbs (Nat.pow 2 1074)

/-- The sum of two doubles. -/
def add (a b : Double) : Double :=
  match nanAmong? a b with
  | some nan => nan
  | none =>
    if a.isInfinite then
      if b.isInfinite && a.isNegative != b.isNegative then invalid else a
    else if b.isInfinite then b
    else addFinite a b

/-- The product of two finite doubles. -/
def mulFinite (a b : Double) : Double :=
  ofRatio (a.isNegative != b.isNegative) (a.units * b.units) (Nat.pow 2 2148)

/-- The quotient of two finite doubles, the second not zero. -/
def divFinite (a b : Double) : Double :=
  ofRatio (a.isNegative != b.isNegative) a.units b.units

end Collate.Double
