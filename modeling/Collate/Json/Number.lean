import Collate.Double.Arithmetic
import Collate.Json.Basic

/-!
# What a number stands for

A numeral without a point and an exponent is an integer if it fits into 64 bits, with or
without a sign.  All other numerals are doubles.  A double is read from the first digits, as
many as fit into 64 bits, and then scaled by one power of ten; the two roundings may leave it
next to the nearest double.  A numeral beyond all doubles stands for nothing.
-/

namespace Collate

/-- What a numeral stands for. -/
inductive Number where
  /-- An integer that is not negative. -/
  | natural (n : UInt64)
  /-- An integer that is negative. -/
  | negative (n : Int64)
  | double (d : Double)
  deriving DecidableEq, Repr

namespace Number

/-- Appends digits to a significand as long as it fits into 64 bits.  Gives the digits for
which there was no room. -/
def absorb (significand : Nat) : Digits → Nat × Digits
  | [] => (significand, [])
  | d :: ds =>
    if 10 * significand + d.val < UInt64.size then absorb (10 * significand + d.val) ds
    else (significand, d :: ds)

/-- A power of ten as a double. -/
def powerOfTen (n : Nat) : Double :=
  Double.ofNat (Nat.pow 10 n)

/-- The double times a power of ten, if it is not beyond all doubles.  Powers below
`10^(-308)` are taken in steps. -/
def scaleByTen (d : Double) (e : Int) : Option Double :=
  if 308 < e then
    if d.isZero then some d else none
  else if 0 ≤ e then
    let scaled := d.mulFinite (powerOfTen e.toNat)
    if scaled.isInfinite then none else some scaled
  else if -308 ≤ e then some (d.divFinite (powerOfTen (-e).toNat))
  else if d.isZero then some d
  else scaleByTen (d.divFinite (powerOfTen 308)) (e + 308)
termination_by (-e).toNat
decreasing_by omega

/-- Exponents are held in 32 bits. -/
def exponentLimit : Nat := 0x7fffffff

/-- The double of a significand and two powers of ten, the second of which is written out.  A
written power that does not fit stands for zero or, with a significand other than zero, for a
number beyond all doubles. -/
def ofParts (negative : Bool) (significand : Nat) (shift written : Int) : Option Double :=
  let magnitude :=
    if exponentLimit < written.natAbs then
      if 0 < written ∧ significand ≠ 0 then none else some (Double.ofNat 0)
    else scaleByTen (Double.ofNat significand) (shift + written)
  magnitude.map fun d => if negative then d.negate else d

/-- The double that a numeral stands for. -/
def readDouble (n : Numeral) : Option Double :=
  let (whole, skipped) := absorb 0 n.whole
  let (significand, ignored) := absorb whole n.fraction
  let shift := (skipped.length : Int) - (n.fraction.length - ignored.length : Nat)
  ofParts n.negative significand shift (n.exponent.getD 0)

/-- What a numeral stands for, if anything. -/
def read (n : Numeral) : Option Number :=
  let v := n.whole.value
  if n.fraction = [] ∧ n.exponent = none ∧ v < UInt64.size then
    if n.negative then
      if v = 0 ∨ 0x8000000000000000 < v then some (.double (Double.ofNat v).negate)
      else some (.negative (Int64.ofInt (-v)))
    else some (.natural (UInt64.ofNat v))
  else (readDouble n).map .double

end Number

end Collate
