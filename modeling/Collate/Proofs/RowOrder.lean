import Collate.Proofs.Joining

/-!
# The order of rows

Rows are compared by the values that they show in the sorted fields, one sort key after the other.
By one key, a row that shows nothing stands before a row that shows something, whichever the
direction; two values stand as they are ordered, or the other way round.  The first key by which
two rows are not tied decides, and rows that are tied by all keys compare equal.  Whatever the slots
hold, and wherever they end, this is a total preorder.
-/

namespace Collate

/-- What a row shows in a field: the value to which the accumulator there has come. -/
def Row.shown? (row : Row) (field : ℕ) : Option Val :=
  (row.slot? field).map Accumulator.eval

/-- In a direction, what one row shows stands before what another one shows. -/
inductive SortDirection.Before : SortDirection → Option Val → Option Val → Prop where
  /-- In either direction, what is missing comes first. -/
  | missing {direction : SortDirection} {w : Val} : Before direction none (some w)
  | ascending {v w : Val} (less : v.order w = .lt) : Before .ascending (some v) (some w)
  | descending {v w : Val} (greater : w.order v = .lt) : Before .descending (some v) (some w)

namespace SortKey

/-- By a sort key, one row stands before another. -/
def Before (s : SortKey) (a b : Row) : Prop :=
  s.direction.Before (a.shown? s.field) (b.shown? s.field)

/-- By a sort key, neither row stands before the other: they show the same, or both nothing. -/
def Tied (s : SortKey) (a b : Row) : Prop :=
  a.shown? s.field = b.shown? s.field

/-- By the first sort key that does not tie them, one row stands before another. -/
inductive Lexicographic (a b : Row) : List SortKey → Prop where
  | here {s : SortKey} {sorts : List SortKey} (before : s.Before a b) :
      Lexicographic a b (s :: sorts)
  | later {s : SortKey} {sorts : List SortKey} (tied : s.Tied a b)
      (rest : Lexicographic a b sorts) : Lexicographic a b (s :: sorts)

/-! ### One sort key -/

theorem compareSlots_eq_lt_iff {direction : SortDirection} {a b : Slot} :
  compareSlots direction a b = .lt
    ↔ direction.Before (a.map Accumulator.eval) (b.map Accumulator.eval)
  := by
  cases a with
  | none =>
      cases b with
      | none => exact iff_of_false (by simp [compareSlots]) (by rintro ⟨⟩)
      | some y => exact iff_of_true rfl .missing
  | some x =>
      cases b with
      | none => exact iff_of_false (by simp [compareSlots]) (by rintro ⟨⟩)
      | some y =>
          cases direction with
          | ascending => exact ⟨.ascending, fun | .ascending less => less⟩
          | descending => exact ⟨.descending, fun | .descending greater => greater⟩

theorem compareSlots_eq_eq_iff {direction : SortDirection} {a b : Slot} :
  compareSlots direction a b = .eq ↔ a.map Accumulator.eval = b.map Accumulator.eval
  := by
  have heq {v w : Val} : v.order w = .eq ↔ v = w := Std.LawfulEqCmp.compare_eq_iff_eq
  cases a with
  | none => cases b <;> simp [compareSlots]
  | some x =>
      cases b with
      | none => simp [compareSlots]
      | some y =>
          rw [Option.map_some, Option.map_some, Option.some.injEq]
          cases direction with
          | ascending => apply heq
          | descending => apply heq.trans eq_comm

variable {s : SortKey} {a b : Row}

theorem compareRows_eq_lt_iff :
  s.compareRows a b = .lt ↔ s.Before a b
  := compareSlots_eq_lt_iff

theorem compareRows_eq_eq_iff :
  s.compareRows a b = .eq ↔ s.Tied a b
  := compareSlots_eq_eq_iff

end SortKey

/-! ### One sort key after the other -/

namespace Plan

variable {p : Plan} {a b : Row}

theorem compare_eq_lt_iff :
  p.compare a b = .lt ↔ SortKey.Lexicographic a b p.sorts
  := by
  rw [compare]
  induction p.sorts with
  | nil => exact iff_of_false (by simp) (by rintro ⟨⟩)
  | cons s sorts ih =>
      rw [List.foldr_cons, Ordering.then_eq_lt, SortKey.compareRows_eq_lt_iff,
        SortKey.compareRows_eq_eq_iff, ih]
      constructor
      · rintro (before | ⟨tied, rest⟩)
        · apply SortKey.Lexicographic.here before
        · apply SortKey.Lexicographic.later tied rest
      · rintro (before | ⟨tied, rest⟩)
        · left
          apply before
        · right
          use tied

theorem compare_eq_eq_iff :
  p.compare a b = .eq ↔ ∀ s ∈ p.sorts, s.Tied a b
  := by
  rw [compare]
  induction p.sorts with
  | nil => simp
  | cons s sorts ih =>
      rw [List.foldr_cons, Ordering.then_eq_eq, SortKey.compareRows_eq_eq_iff, ih,
        List.forall_mem_cons]

/-- Whatever the plan and the rows, a row compares equal to itself, turning two rows round turns
the result round, and both coming no later and comparing equal are transitive.  The first sort key
that does not tie two rows decides between them. -/
theorem compare_totalPreorder_lexicographic (p : Plan) :
  (∀ a, p.compare a a = .eq)
    ∧ (∀ a b, p.compare b a = (p.compare a b).swap)
    ∧ (∀ a b c, (p.compare a b).isLE → (p.compare b c).isLE → (p.compare a c).isLE)
    ∧ (∀ a b c, p.compare a b = .eq → p.compare b c = .eq → p.compare a c = .eq)
    ∧ ∀ a b,
      (p.compare a b = .lt ↔ SortKey.Lexicographic a b p.sorts)
        ∧ (p.compare a b = .gt ↔ SortKey.Lexicographic b a p.sorts)
        ∧ (p.compare a b = .eq ↔ ∀ s ∈ p.sorts, s.Tied a b)
  := by
  refine ⟨fun a => Std.ReflCmp.compare_self, fun a b => Std.OrientedCmp.eq_swap, ?le, ?eq, ?lex⟩
  case le =>
    intro a b c
    apply Std.TransCmp.isLE_trans
  case eq =>
    intro a b c
    apply Std.TransCmp.eq_trans
  case lex =>
    intro a b
    refine ⟨compare_eq_lt_iff, ?_, compare_eq_eq_iff⟩
    rw [← compare_eq_lt_iff]
    apply Std.OrientedCmp.gt_iff_lt

-- a row that ends too early, a count above all integers, and the two zeros
example :
  let p : Plan := ⟨1, none, some 0, [⟨0, 0, .descending⟩]⟩
  let row (slots : List Slot) : Row := ⟨.detail .root, slots⟩
  p.compare (row []) (row [some (.sum ⟨0x7ff8000000000000⟩)]) = .lt
    ∧ p.compare (row [some (.count 0xffffffffffffffff)])
        (row [some (.value (.long 0x7fffffffffffffff))]) = .eq
    ∧ p.compare (row [some (.sum ⟨0⟩)]) (row [some (.sum ⟨0x8000000000000000⟩)]) = .lt
  := by decide

end Plan

end Collate
