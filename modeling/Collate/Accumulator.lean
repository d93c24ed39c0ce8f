import Collate.Double.Arithmetic
import Collate.Val

/-!
# Accumulators

Each field of a row carries an accumulator, which gathers what the rows of one group say
about that field.  `Accumulator.combine` joins two accumulators of one kind and hands the
second back if the kinds differ; `Accumulator.absorb` is the same step taken by an
accumulator that stays as it is when it refuses.  `Accumulator.eval` is the value an
accumulator has come to, by which accumulators are ordered.
-/

namespace Collate

/-- What the rows of a group have said about one field. -/
inductive Accumulator where
  /-- The first value that is not null. -/
  | value (v : Val)
  | count (n : UInt64)
  | sum (d : Double)
  /-- The least value that is not null. -/
  | min (v : Val)
  /-- The greatest value. -/
  | max (v : Val)
  deriving DecidableEq, Inhabited, Repr

namespace Accumulator

/-- Counts add up to the greatest count at most. -/
def addCounts (a b : UInt64) : UInt64 :=
  UInt64.ofNat (Nat.min (a.toNat + b.toNat) (UInt64.size - 1))

/-- Joins two accumulators of one kind; hands the second back if their kinds differ. -/
def combine : Accumulator → Accumulator → Except Accumulator Accumulator
  | .value a, .value b => .ok (.value (if a.isNull then b else a))
  | .count a, .count b => .ok (.count (addCounts a b))
  | .sum a, .sum b => .ok (.sum (a.add b))
  | .min a, .min b =>
    .ok (.min (if a.isNull || (!b.isNull && b.precedes a) then b else a))
  | .max a, .max b => .ok (.max (if a.precedes b then b else a))
  | _, b => .error b

/-- The accumulator after it was offered another one, and that other one if it was refused. -/
def absorb (a b : Accumulator) : Accumulator × Option Accumulator :=
  match a.combine b with
  | .ok c => (c, none)
  | .error refused => (a, some refused)

/-- A count as a value, the greatest one standing for all that lie above it. -/
def countAsLong (n : UInt64) : Int64 :=
  Int64.ofNat (Nat.min n.toNat 0x7fffffffffffffff)

/-- The value an accumulator has come to. -/
def eval : Accumulator → Val
  | .value v | .min v | .max v => v
  | .count n => .long (countAsLong n)
  | .sum d => .double d

/-- Accumulators are ordered by the values they have come to. -/
def order (a b : Accumulator) : Ordering :=
  a.eval.order b.eval

/-- Equality of accumulators, in which sums are compared as numbers. -/
def equal : Accumulator → Accumulator → Bool
  | .sum a, .sum b => a.equalNumbers b
  | a, b => decide (a = b)

end Accumulator

end Collate
