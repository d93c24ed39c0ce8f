import Collate.Double.Arithmetic
import Collate.Decimal.Numeral

/-!
# Shortest decimals

The shortest decimal of a finite double has the fewest digits among those that read back as
that double, and lies nearest to it among those with as many digits.  It is found on the
decimal grids of one digit, two digits and so on: if a point of a grid reads back, so does one
of the two points of that grid next to the double.  A `Layout` says how such a decimal is
written out.
-/

namespace Collate

/-- Which of two equally near decimals is taken. -/
inductive Tie where
  /-- The greater one. -/
  | up
  /-- The one whose last digit is even. -/
  | even
  deriving DecidableEq, Repr

namespace Double

/-- The greatest `e` with `10^e ≤ num / den`, for positive `num` and `den`. -/
def floorLog10 (num den : Nat) : Int :=
  if den ≤ num then (Digits.ofNat (num / den)).length - 1
  else -((Digits.ofNat ((den - 1) / num)).length : Int)

/-- The decimals that read back as a double lie between two bounds, in a unit that is a
quarter of the last binary place of its significand. -/
structure Interval where
  low : Nat
  middle : Nat
  high : Nat
  /-- Whether the bounds themselves read back. -/
  closed : Bool
  /-- The unit as a power of two. -/
  power : Int

/-- The interval of a finite double that is not zero.  The gap below a power of two is half
the gap above it. -/
def interval (d : Double) : Interval :=
  let m := d.significand
  let low := if m = fractionSize ∧ -1074 < d.exponent then 4 * m - 1 else 4 * m - 2
  ⟨low, 4 * m, 4 * m + 2, m % 2 = 0, d.exponent - 2⟩

/-- The point of the grid `10^e` nearest to a double, of those next to it that read back. -/
def nearestOnGrid (tie : Tie) (i : Interval) (e : Int) : Option Nat :=
  -- all quantities times a common denominator: `unit` is one unit, `grid` one grid step
  let unit := Nat.pow 2 i.power.toNat * Nat.pow 10 (-e).toNat
  let grid := Nat.pow 2 (-i.power).toNat * Nat.pow 10 e.toNat
  let below := i.middle * unit / grid
  let reads (c : Nat) : Bool :=
    if i.closed then i.low * unit ≤ c * grid && c * grid ≤ i.high * unit
    else i.low * unit < c * grid && c * grid < i.high * unit
  match reads below, reads (below + 1) with
  | false, false => none
  | true, false => some below
  | false, true => some (below + 1)
  | true, true =>
    match compare (2 * i.middle * unit) ((2 * below + 1) * grid), tie with
    | .lt, _ => some below
    | .gt, _ => some (below + 1)
    | .eq, .up => some (below + 1)
    | .eq, .even => some (if below % 2 = 0 then below else below + 1)

/-- The digits of the shortest decimal of a finite double that is not zero, and the power of
ten of the first of them. -/
def shortest (tie : Tie) (d : Double) : Digits × Int :=
  let i := d.interval
  let (num, den) := scale i.middle 1 i.power
  let top := floorLog10 num den
  let hit := (List.range 17).findSome? fun (n : Nat) =>
    (nearestOnGrid tie i (top - n)).map fun c => (c, top - n)
  let (c, e) := hit.getD (0, 0)
  let digits := Digits.ofNat c
  (digits.trimEnd, e + digits.length - 1)

end Double

/-- How a decimal is written out. -/
structure Layout where
  /-- The least power of ten of a first digit for which no exponent is written. -/
  leastPlain : Int
  /-- The greatest such power. -/
  greatestPlain : Int
  tie : Tie

namespace Layout

/-- A decimal without an exponent, with at least one digit on either side of the point. -/
def plain (negative : Bool) (digits : Digits) (top : Int) : Numeral :=
  if top < 0 then ⟨negative, .zeros 1, .zeros (-top - 1).toNat ++ digits, none⟩
  else
    let n := top.toNat + 1
    let rest := digits.drop n
    ⟨negative, digits.take n ++ Digits.zeros (n - digits.length),
      if rest.isEmpty then .zeros 1 else rest, none⟩

/-- A decimal with one digit before the point and an exponent. -/
def scientific (negative : Bool) (digits : Digits) (top : Int) : Numeral :=
  ⟨negative, digits.take 1, digits.drop 1, some top⟩

/-- The numeral of a finite double. -/
def numeral (l : Layout) (d : Double) : Numeral :=
  if d.isZero then ⟨d.isNegative, .zeros 1, .zeros 1, none⟩
  else
    let (digits, top) := d.shortest l.tie
    if l.leastPlain ≤ top ∧ top ≤ l.greatestPlain then plain d.isNegative digits top
    else scientific d.isNegative digits top

end Layout

end Collate
