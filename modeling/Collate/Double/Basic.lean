/-!
# Doubles

A `Double` is a word of the IEEE 754 binary64 format, kept as its 64 bits so that every
NaN and both zeros are told apart.  `Double.place` is the position of a word in the total
order of the format: negative NaNs, negative numbers, `-0`, `+0`, positive numbers,
positive NaNs.  The finite magnitude of a word is counted in units of `2^(-1074)`, of which
every finite double is a whole number.
-/

namespace Collate

/-- A word of the binary64 format. -/
structure Double where
  bits : UInt64
  deriving DecidableEq, Inhabited, Repr

namespace Double

/-- The weight of the sign bit. -/
def signWeight : Nat := 0x8000000000000000

/-- How many fractions there are for each exponent. -/
def fractionSize : Nat := 0x10000000000000

/-- The magnitude of an infinity, read as a number: an all-ones exponent and no fraction. -/
def infinityMagnitude : Nat := 2047 * fractionSize

/-- Whether the sign bit is set. -/
def isNegative (d : Double) : Bool :=
  signWeight ≤ d.bits.toNat

/-- The word without its sign bit. -/
def magnitude (d : Double) : Nat :=
  d.bits.toNat % signWeight

/-- The double with the given sign and magnitude. -/
def ofMagnitude (negative : Bool) (m : Nat) : Double :=
  ⟨UInt64.ofNat (if negative then signWeight + m else m)⟩

def isNaN (d : Double) : Bool :=
  infinityMagnitude < d.magnitude

def isInfinite (d : Double) : Bool :=
  d.magnitude = infinityMagnitude

def isZero (d : Double) : Bool :=
  d.magnitude = 0

/-- The position of a word in the total order of the format: a set sign bit reverses the
order of magnitudes and comes before a clear one. -/
def place (d : Double) : Nat :=
  if d.isNegative then 2 * signWeight - 1 - d.bits.toNat else d.bits.toNat + signWeight

/-- Distinct words have distinct places. -/
theorem place_injective {a b : Double} (h : a.place = b.place) :
  a = b
  := by
  have ha := a.bits.toNat_lt
  have hb := b.bits.toNat_lt
  suffices hbits : a.bits.toNat = b.bits.toNat by
    cases a
    cases b
    simpa [UInt64.toNat_inj] using hbits
  have hw : signWeight = 0x8000000000000000 := rfl
  by_cases sa : signWeight ≤ a.bits.toNat <;> by_cases sb : signWeight ≤ b.bits.toNat <;>
    simp [place, isNegative, sa, sb] at h <;> omega

instance : Ord Double where
  compare a b := compare a.place b.place

/-- Numerical equality: a NaN equals nothing, and the two zeros are equal. -/
def equalNumbers (a b : Double) : Bool :=
  !a.isNaN && !b.isNaN && (a.bits == b.bits || (a.isZero && b.isZero))

/-! ### Finite values -/

/-- The exponent of a finite double, the power of two in which its significand counts. -/
def exponent (d : Double) : Int :=
  (max 1 (d.magnitude / fractionSize) : Nat) - 1075

/-- The significand of a finite double. -/
def significand (d : Double) : Nat :=
  if d.magnitude < fractionSize then d.magnitude
  else fractionSize + d.magnitude % fractionSize

/-- The absolute value of a finite double, in units of `2^(-1074)`. -/
def units (d : Double) : Nat :=
  d.significand * Nat.pow 2 (d.exponent + 1074).toNat

/-- The value of a finite double, in units of `2^(-1074)`. -/
def value (d : Double) : Int :=
  if d.isNegative then -(d.units : Int) else d.units

end Double

end Collate
