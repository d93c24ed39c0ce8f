import Collate.Plan

/-!
# The orders of values, accumulators and rows

Each of these comparisons is a total preorder: turning the arguments round turns the result
round, and coming no later than is transitive.  Values are compared kind by kind, rows sort key
by sort key, so all of this comes down to comparing lexicographically.
-/

namespace Collate

/-- A comparison of what `f` gives is a total preorder if the comparison of its values is. -/
theorem transCmp_on {α β : Type} (f : α → β) (cmp : β → β → Ordering) [Std.TransCmp cmp] :
  Std.TransCmp fun a b => cmp (f a) (f b)
  := { eq_swap := Std.OrientedCmp.eq_swap, isLE_trans := Std.TransCmp.isLE_trans }

namespace Val

/-- What a boolean holds, and `false` for any other value. -/
def booleanPart : Val → Bool
  | .boolean b => b
  | _ => false

/-- What an integer holds, and zero for any other value. -/
def longPart : Val → Int64
  | .long n => n
  | _ => 0

/-- The place of a double, and zero for any other value. -/
def placePart : Val → Nat
  | .double d => d.place
  | _ => 0

/-- The bytes of a text, and none for any other value. -/
def bytesPart : Val → List UInt8
  | .text s => utf8Bytes s
  | _ => []

/-- Values are ordered by kind, then by what they hold. -/
theorem order_eq_compareLex :
  order = compareLex (compareOn rank) (compareLex (compareOn booleanPart)
    (compareLex (compareOn longPart) (compareLex (compareOn placePart) (compareOn bytesPart))))
  := by
  funext a b
  cases a <;> cases b <;>
    simp [order, compareLex, compareOn, rank, booleanPart, longPart, placePart, bytesPart,
      Std.compare_self] <;> rfl

instance : Std.TransCmp order := by
  rw [order_eq_compareLex]
  infer_instance

end Val

instance : Std.TransCmp Accumulator.order :=
  transCmp_on Accumulator.eval Val.order

namespace SortKey

/-- Compares two present slots. -/
def comparePresent : SortDirection → Accumulator → Accumulator → Ordering
  | .ascending, a, b => a.order b
  | .descending, a, b => b.order a

instance (direction : SortDirection) : Std.TransCmp (comparePresent direction) := by
  cases direction with
  | ascending => exact inferInstanceAs (Std.TransCmp Accumulator.order)
  | descending => exact inferInstanceAs (Std.TransCmp fun a b => Accumulator.order b a)

theorem compareSlots_some (direction : SortDirection) (a b : Accumulator) :
  compareSlots direction (some a) (some b) = comparePresent direction a b
  := by
  cases direction <;> rfl

instance (direction : SortDirection) : Std.TransCmp (compareSlots direction) where
  eq_swap := by
    intro a b
    cases a <;> cases b <;> try rfl
    rw [compareSlots_some, compareSlots_some]
    apply Std.OrientedCmp.eq_swap
  isLE_trans := by
    intro a b c hab hbc
    cases a <;> cases b <;> cases c <;> try first | contradiction | rfl
    rw [compareSlots_some] at *
    apply Std.TransCmp.isLE_trans hab hbc

instance (s : SortKey) : Std.TransCmp s.compareRows :=
  transCmp_on (fun row : Row => row.slot? s.field) (compareSlots s.direction)

end SortKey

namespace Plan

theorem transCmp_sorts (sorts : List SortKey) :
  Std.TransCmp fun a b => sorts.foldr (fun s rest => (s.compareRows a b).then rest) .eq
  := by
  induction sorts with
  | nil => exact { eq_swap := rfl, isLE_trans := fun _ _ => rfl }
  | cons s sorts ih =>
      change Std.TransCmp (compareLex s.compareRows
        fun a b => sorts.foldr (fun s rest => (s.compareRows a b).then rest) .eq)
      infer_instance

instance (p : Plan) : Std.TransCmp p.compare :=
  transCmp_sorts p.sorts

theorem mayPrecede_trans (p : Plan) (a b c : Row) (hab : p.mayPrecede a b = true)
    (hbc : p.mayPrecede b c = true) :
  p.mayPrecede a c = true
  := Std.TransCmp.isLE_trans hab hbc

theorem mayPrecede_total (p : Plan) (a b : Row) :
  (p.mayPrecede a b || p.mayPrecede b a) = true
  := by
  rw [Bool.or_eq_true]
  by_cases h : p.mayPrecede a b = true
  · left
    apply h
  · right
    have hba : p.compare b a = .lt := Std.OrientedCmp.lt_of_not_isLE h
    rw [mayPrecede, hba]
    rfl

/-- Rows that may stand in either order compare equal. -/
theorem compare_eq_of_mayPrecede {p : Plan} {a b : Row} (hab : p.mayPrecede a b = true)
    (hba : p.mayPrecede b a = true) :
  p.compare a b = .eq
  := Std.OrientedCmp.isLE_antisymm hab hba

/-- Without sort keys any row may stand before any other. -/
theorem mayPrecede_of_not_hasSort {p : Plan} (h : p.hasSort = false) (a b : Row) :
  p.mayPrecede a b = true
  := by
  have : p.sorts = [] := by simpa [hasSort] using h
  simp [mayPrecede, compare, this]

end Plan

end Collate
