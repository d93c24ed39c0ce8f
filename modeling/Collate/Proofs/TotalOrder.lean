import Mathlib.Algebra.Order.Ring.Nat
import Mathlib.Data.Int.ConditionallyCompleteOrder
import Mathlib.Order.Monotone.Basic
import Mathlib.Order.WithBot
import Mathlib.Tactic.Linarith
import Collate.Double.Basic

/-!
# The total order of doubles

The place of a double was defined on its bits.  Here it is shown to be the total order of the
format: numbers stand as they are ordered, with an infinity at either end and the negative zero
before the positive one; NaNs stand at the ends on the side of their sign, and among themselves by
their payload.

What carries this is that the number of units in a magnitude grows with the magnitude, however the
exponent and the fraction change.
-/

namespace Collate.Double

/-! ### The total order -/

/-- The number for which a double that is not a NaN stands, in units of `2^(-1074)`. -/
def number (d : Double) : WithBot (WithTop ℤ) :=
  if d.isInfinite then (if d.isNegative then ⊥ else ⊤)
  else ((d.value : WithTop ℤ) : WithBot (WithTop ℤ))

/-- One double stands before another. -/
inductive Before (a b : Double) : Prop where
  /-- Numbers stand as they are ordered. -/
  | numbers (ha : a.isNaN = false) (hb : b.isNaN = false) (less : a.number < b.number)
  /-- The negative zero comes before the positive one. -/
  | zeros (ha : a.isZero = true) (hb : b.isZero = true) (negative : a.isNegative = true)
      (positive : b.isNegative = false)
  /-- A NaN with its sign bit set comes before all numbers. -/
  | nanFirst (ha : a.isNaN = true) (hb : b.isNaN = false) (negative : a.isNegative = true)
  /-- A NaN with its sign bit clear comes behind all numbers. -/
  | nanLast (ha : a.isNaN = false) (hb : b.isNaN = true) (positive : b.isNegative = false)
  /-- Of two NaNs the one with its sign bit set comes first. -/
  | nanSigns (ha : a.isNaN = true) (hb : b.isNaN = true) (negative : a.isNegative = true)
      (positive : b.isNegative = false)
  /-- Without their signs, NaNs stand by their payload, quiet ones behind signalling ones. -/
  | payloads (ha : a.isNaN = true) (hb : b.isNaN = true) (pa : a.isNegative = false)
      (pb : b.isNegative = false) (less : a.magnitude < b.magnitude)
  /-- With their signs they stand the other way round. -/
  | payloadsDown (ha : a.isNaN = true) (hb : b.isNaN = true) (na : a.isNegative = true)
      (nb : b.isNegative = true) (greater : b.magnitude < a.magnitude)

/-! ### Units grow with the magnitude -/

/-- The units in a magnitude: its significand, counted in the power of two that its exponent
says. -/
def unitsIn (m : ℕ) : ℕ :=
  let shift := m / fractionSize - 1
  (m - shift * fractionSize) * 2 ^ shift

theorem units_eq (d : Double) :
  d.units = unitsIn d.magnitude
  := by
  have hsize : fractionSize = 0x10000000000000 := rfl
  have hexponent : (d.exponent + 1074).toNat = d.magnitude / fractionSize - 1 := by
    rw [exponent]
    omega
  have hsignificand :
      d.significand = d.magnitude - (d.magnitude / fractionSize - 1) * fractionSize := by
    rw [significand]
    rw [hsize]
    split <;> omega
  rw [units, hexponent, hsignificand]
  rfl

/-- The units of a magnitude grow with it.  From one exponent to the next the significand starts
anew, and its unit counts double. -/
theorem strictMono_unitsIn :
  StrictMono unitsIn
  := by
  apply strictMono_nat_of_lt_succ
  intro m
  have hsize : fractionSize = 0x10000000000000 := rfl
  simp only [unitsIn]
  rw [hsize]
  by_cases carry : (m + 1) / 0x10000000000000 - 1 = m / 0x10000000000000 - 1
  · rw [carry]
    apply Nat.mul_lt_mul_of_pos_right _ (Nat.two_pow_pos _)
    omega
  · have hpos : 0 < 2 ^ (m / 0x10000000000000 - 1) := Nat.two_pow_pos _
    have hnext : (m + 1) / 0x10000000000000 - 1 = m / 0x10000000000000 - 1 + 1 := by omega
    have hlast : m - (m / 0x10000000000000 - 1) * 0x10000000000000 = 0x1fffffffffffff := by omega
    have hfirst :
        m + 1 - (m / 0x10000000000000 - 1 + 1) * 0x10000000000000 = 0x10000000000000 := by
      omega
    rw [hnext, hlast, hfirst, Nat.pow_succ]
    omega

/-! ### Numbers -/

theorem value_eq (d : Double) :
  d.value = if d.isNegative then -(unitsIn d.magnitude : ℤ) else unitsIn d.magnitude
  := by
  rw [value, units_eq]

/-- Taken as a value, an infinity lies where the magnitudes of numbers end. -/
theorem number_cases {d : Double} (h : d.isNaN = false) :
  let bound : ℤ := unitsIn infinityMagnitude
  (d.number = ⊥ ∧ d.value = -bound) ∨ (d.number = ⊤ ∧ d.value = bound)
    ∨ d.number = ((d.value : WithTop ℤ) : WithBot (WithTop ℤ)) ∧ -bound < d.value ∧ d.value < bound
  := by
  intro bound
  rw [number]
  by_cases infinite : d.isInfinite = true
  · have hmagnitude : d.magnitude = infinityMagnitude := by simpa [isInfinite] using infinite
    rw [if_pos infinite, value_eq, hmagnitude]
    by_cases negative : d.isNegative = true
    · left
      rw [if_pos negative, if_pos negative]
      exact ⟨rfl, rfl⟩
    · right
      left
      rw [if_neg negative, if_neg negative]
      exact ⟨rfl, rfl⟩
  · have hle : d.magnitude ≤ infinityMagnitude := by simpa [isNaN] using h
    have hne : d.magnitude ≠ infinityMagnitude := by simpa [isInfinite] using infinite
    have hunits : unitsIn d.magnitude < unitsIn infinityMagnitude :=
      strictMono_unitsIn (lt_of_le_of_ne hle hne)
    right
    right
    rw [if_neg infinite, value_eq]
    use rfl
    split <;> omega

theorem number_lt_number_iff {a b : Double} (ha : a.isNaN = false) (hb : b.isNaN = false) :
  a.number < b.number ↔ a.value < b.value
  := by
  have hbound : 0 < unitsIn infinityMagnitude := strictMono_unitsIn (a := 0) (by decide)
  have htop (v : ℤ) : ((v : WithTop ℤ) : WithBot (WithTop ℤ)) < ⊤ :=
    WithBot.coe_lt_coe.mpr (WithTop.coe_lt_top v)
  have acases := number_cases ha
  have bcases := number_cases hb
  generalize unitsIn infinityMagnitude = bound at hbound acases bcases
  rcases acases with ⟨na, va⟩ | ⟨na, va⟩ | ⟨na, la, ua⟩ <;>
    rcases bcases with ⟨nb, vb⟩ | ⟨nb, vb⟩ | ⟨nb, lb, ub⟩ <;>
    rw [na, nb] <;> simp [*] <;> omega

/-! ### The order of places -/

theorem place_eq (d : Double) :
  d.place = if d.isNegative then signWeight - 1 - d.magnitude else signWeight + d.magnitude
  := by
  have hbits := d.bits.toNat_lt
  have hsize : signWeight = 0x8000000000000000 := rfl
  simp only [place, isNegative, magnitude, decide_eq_true_eq]
  rw [hsize]
  split <;> omega

theorem place_lt_place_iff {a b : Double} :
  a.place < b.place
    ↔ (if a.isNegative then (b.isNegative = true → b.magnitude < a.magnitude)
      else b.isNegative = false ∧ a.magnitude < b.magnitude)
  := by
  have ha : a.magnitude < signWeight := Nat.mod_lt _ (by decide)
  have hb : b.magnitude < signWeight := Nat.mod_lt _ (by decide)
  rw [place_eq, place_eq]
  cases a.isNegative <;> cases b.isNegative <;> simp <;> omega

/-- Of two numbers, the one with the lesser place is the lesser one, or the negative zero. -/
theorem place_lt_place_iff_of_numbers {a b : Double} (ha : a.isNaN = false) (hb : b.isNaN = false) :
  a.place < b.place
    ↔ a.number < b.number
      ∨ (a.isZero = true ∧ b.isZero = true ∧ a.isNegative = true ∧ b.isNegative = false)
  := by
  have hunits : unitsIn a.magnitude < unitsIn b.magnitude ↔ a.magnitude < b.magnitude :=
    strictMono_unitsIn.lt_iff_lt
  have hunits' : unitsIn b.magnitude < unitsIn a.magnitude ↔ b.magnitude < a.magnitude :=
    strictMono_unitsIn.lt_iff_lt
  have hzero (m : ℕ) : unitsIn m = 0 ↔ m = 0 := strictMono_unitsIn.injective.eq_iff' rfl
  have hza := hzero a.magnitude
  have hzb := hzero b.magnitude
  rw [place_lt_place_iff, number_lt_number_iff ha hb, value_eq, value_eq]
  simp only [isZero, decide_eq_true_eq]
  cases a.isNegative <;> cases b.isNegative <;> simp <;> omega

theorem isNaN_iff {d : Double} :
  d.isNaN = true ↔ infinityMagnitude < d.magnitude
  := decide_eq_true_iff

theorem not_isNaN_iff {d : Double} :
  d.isNaN = false ↔ d.magnitude ≤ infinityMagnitude
  := decide_eq_false_iff_not.trans Nat.not_lt

theorem Before.place_lt {a b : Double} (h : a.Before b) :
  a.place < b.place
  := by
  cases h with
  | numbers ha hb less =>
      apply (place_lt_place_iff_of_numbers ha hb).mpr
      left
      apply less
  | zeros za zb negative positive =>
      apply place_lt_place_iff.mpr
      simp [negative, positive]
  | nanFirst ha hb negative =>
      have := isNaN_iff.mp ha
      have := not_isNaN_iff.mp hb
      apply place_lt_place_iff.mpr
      simp only [negative, if_true]
      omega
  | nanLast ha hb positive =>
      have := not_isNaN_iff.mp ha
      have := isNaN_iff.mp hb
      apply place_lt_place_iff.mpr
      simp only [positive, true_and]
      split
      · simp
      · omega
  | nanSigns _ _ negative positive =>
      apply place_lt_place_iff.mpr
      simp [negative, positive]
  | payloads _ _ pa pb less =>
      apply place_lt_place_iff.mpr
      simp [pa, pb, less]
  | payloadsDown _ _ na nb greater =>
      apply place_lt_place_iff.mpr
      simp [na, nb, greater]

theorem before_of_place_lt {a b : Double} (h : a.place < b.place) :
  a.Before b
  := by
  cases ha : a.isNaN <;> cases hb : b.isNaN
  case false.false =>
    rcases (place_lt_place_iff_of_numbers ha hb).mp h with less | ⟨za, zb, negative, positive⟩
    · apply Before.numbers ha hb less
    · apply Before.zeros za zb negative positive
  case false.true =>
    have := not_isNaN_iff.mp ha
    have := isNaN_iff.mp hb
    apply Before.nanLast ha hb
    rw [place_lt_place_iff] at h
    split at h
    · by_contra negative
      have := h (by simpa using negative)
      omega
    · apply h.1
  case true.false =>
    have := isNaN_iff.mp ha
    have := not_isNaN_iff.mp hb
    apply Before.nanFirst ha hb
    by_contra positive
    rw [place_lt_place_iff, if_neg positive] at h
    omega
  case true.true =>
    rw [place_lt_place_iff] at h
    cases na : a.isNegative <;> cases nb : b.isNegative <;> simp [na, nb] at h
    case false.false => apply Before.payloads ha hb na nb h
    case true.false => apply Before.nanSigns ha hb na nb
    case true.true => apply Before.payloadsDown ha hb na nb h

/-- Doubles are compared by the total order of their format. -/
theorem compare_eq_lt_iff {a b : Double} :
  compare a b = .lt ↔ a.Before b
  := Nat.compare_eq_lt.trans ⟨before_of_place_lt, Before.place_lt⟩

-- a NaN with its sign, the negative infinity, the zeros, the infinity, a signalling and a quiet NaN
example :
  [0xfff8000000000000, 0xfff0000000000000, 0x8000000000000000, 0, 0x7ff0000000000000,
    0x7ff0000000000001, 0x7ff8000000000000].Pairwise fun w w' => compare (mk w) (mk w') = .lt
  := by decide

end Collate.Double
