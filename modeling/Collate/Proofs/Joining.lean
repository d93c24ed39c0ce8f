import Collate.Proofs.Gathering
import Collate.Proofs.Order

/-!
# Joining in any order

Accumulators other than sums may be combined in any grouping: counts add up to a bound, the least
and the greatest value are picked from linear orders of values, and the first value that is not null
is the same however it is looked for.  All of these but the last also commute, and so does the last
where all values agree.  Hence what the slots of a group come to does not depend on the order in
which they came.
-/

namespace Collate

/-! ### Picking the lesser of two -/

/-- The lesser of two elements, the first one if they compare equal. -/
def lesser {α : Type} (cmp : α → α → Ordering) (a b : α) : α :=
  if (cmp a b).isLE then a else b

section

variable {α : Type} {cmp : α → α → Ordering} [Std.TransCmp cmp]

/-- Picking the lesser can be bracketed in any way. -/
theorem lesser_assoc (a b c : α) :
  lesser cmp (lesser cmp a b) c = lesser cmp a (lesser cmp b c)
  := by
  by_cases hab : (cmp a b).isLE
  · by_cases hbc : (cmp b c).isLE
    · have hac : (cmp a c).isLE := Std.TransCmp.isLE_trans hab hbc
      simp [lesser, hab, hbc, hac]
    · simp [lesser, hab, hbc]
  · by_cases hbc : (cmp b c).isLE
    · simp [lesser, hab, hbc]
    · have hac : ¬ (cmp a c).isLE := by
        intro hac
        apply hab
        have hcb : cmp c b = .lt := Std.OrientedCmp.lt_of_not_isLE hbc
        apply Std.TransCmp.isLE_trans hac
        rw [hcb]
        rfl
      simp [lesser, hab, hbc, hac]

/-- Where only equal elements compare equal, the lesser of two does not depend on their order. -/
theorem lesser_comm [Std.LawfulEqCmp cmp] (a b : α) :
  lesser cmp a b = lesser cmp b a
  := by
  have hswap : cmp b a = (cmp a b).swap := Std.OrientedCmp.eq_swap
  rw [lesser, lesser, hswap]
  cases h : cmp a b with
  | lt => rfl
  | gt => rfl
  | eq => simp [Std.LawfulEqCmp.eq_of_compare h]

end

namespace Val

/-- Texts with the same bytes are equal. -/
theorem utf8Bytes_injective {s s' : String} (h : utf8Bytes s = utf8Bytes s') :
  s = s'
  := by
  apply String.toByteArray_inj.mp
  apply ByteArray.ext
  apply Array.toList_inj.mp h

/-- Only a value itself compares equal to it. -/
theorem eq_of_order_eq {a b : Val} (h : a.order b = .eq) :
  a = b
  := by
  rw [order_eq_compareLex] at h
  simp only [compareLex_eq_eq, compareOn, Std.LawfulEqCmp.compare_eq_iff_eq] at h
  obtain ⟨hrank, hboolean, hlong, hplace, hbytes⟩ := h
  cases a <;> cases b <;> try simp [rank] at hrank
  case null.null => rfl
  case boolean.boolean =>
    rw [boolean.injEq]
    apply hboolean
  case long.long =>
    rw [long.injEq]
    apply hlong
  case double.double =>
    rw [double.injEq]
    apply Double.place_injective hplace
  case text.text =>
    rw [text.injEq]
    apply utf8Bytes_injective hbytes

instance : Std.LawfulEqCmp order where
  eq_of_compare := eq_of_order_eq

theorem eq_null_of_isNull {a : Val} (h : a.isNull = true) :
  a = .null
  := by
  cases a with
  | null => rfl
  | _ => contradiction

/-- The order of values with null behind all others. -/
def orderNullLast : Val → Val → Ordering :=
  compareLex (compareOn isNull) order

instance : Std.TransCmp orderNullLast :=
  inferInstanceAs (Std.TransCmp (compareLex (compareOn isNull) order))

instance : Std.LawfulEqCmp orderNullLast where
  eq_of_compare := by
    intro a b h
    apply eq_of_order_eq
    apply (compareLex_eq_eq.mp h).2

/-- The order of values turned round. -/
def orderDown (a b : Val) : Ordering :=
  b.order a

instance : Std.TransCmp orderDown :=
  inferInstanceAs (Std.TransCmp fun a b => order b a)

instance : Std.LawfulEqCmp orderDown where
  eq_of_compare h := (eq_of_order_eq h).symm

end Val

/-! ### The laws of combination -/

namespace Accumulator

/-- Two counts add up to their sum, or to the greatest count where the sum exceeds it. -/
theorem toNat_addCounts (a b : UInt64) :
  (addCounts a b).toNat = Nat.min (a.toNat + b.toNat) (UInt64.size - 1)
  := by
  rw [addCounts, UInt64.toNat_ofNat', Nat.mod_eq_of_lt]
  apply Nat.lt_of_le_of_lt (Nat.min_le_right _ _)
  decide

theorem addCounts_comm (a b : UInt64) :
  addCounts a b = addCounts b a
  := by
  rw [addCounts, addCounts, Nat.add_comm]

/-- Counts can be added in any grouping, although they stop at the greatest one. -/
theorem addCounts_assoc (a b c : UInt64) :
  addCounts (addCounts a b) c = addCounts a (addCounts b c)
  := by
  rw [← UInt64.toNat_inj]
  simp only [toNat_addCounts, Nat.min_def]
  split <;> split <;> split <;> split <;> omega

/-- The least value that is not null is the lesser one in the order with null last. -/
theorem combine_min (a b : Val) :
  combine (.min a) (.min b) = .ok (.min (lesser Val.orderNullLast a b))
  := by
  rw [combine, lesser, Val.orderNullLast, compareLex, compareOn]
  cases ha : a.isNull with
  | false =>
      cases hb : b.isNull with
      | false =>
          have hswap : b.order a = (a.order b).swap := Std.OrientedCmp.eq_swap
          rw [Val.precedes, hswap]
          cases a.order b <;> rfl
      | true => rfl
  | true =>
      cases hb : b.isNull with
      | false => rfl
      | true =>
          obtain rfl := Val.eq_null_of_isNull ha
          obtain rfl := Val.eq_null_of_isNull hb
          rfl

/-- The greater of two maxima is kept, and the first one if they are equal. -/
theorem combine_max (a b : Val) :
  combine (.max a) (.max b) = .ok (.max (lesser Val.orderDown a b))
  := by
  have hswap : b.order a = (a.order b).swap := Std.OrientedCmp.eq_swap
  rw [combine, lesser, Val.orderDown, Val.precedes, hswap]
  cases a.order b <;> rfl

end Accumulator

namespace Slot

@[simp]
theorem combine?_none_left (b : Slot) :
  combine? none b = some b
  := by
  cases b <;> rfl

@[simp]
theorem combine?_none_right (a : Slot) :
  combine? a none = some a
  := by
  cases a <;> rfl

open Accumulator in
/-- Three slots come to the same whichever two are joined first, unless sums are rounded.
Accumulators of different kinds are not joined, whichever are tried first. -/
theorem combine?_assoc {b : Slot} (noSum : ∀ d, b ≠ some (.sum d)) (a c : Slot) :
  (combine? a b).bind (combine? · c) = (combine? b c).bind (combine? a ·)
  := by
  cases a with
  | none => simp
  | some a =>
      cases b with
      | none => simp
      | some b =>
          cases c with
          | none => simp
          | some c =>
              cases b <;> cases a <;> cases c <;> try rfl
              case value v u w =>
                cases hu : u.isNull <;> cases hv : v.isNull <;> simp [combine?, combine, hu, hv]
              case count => simp [combine?, combine, addCounts_assoc]
              case sum => simp at noSum
              case min => simp [combine?, combine_min, lesser_assoc]
              case max => simp [combine?, combine_max, lesser_assoc]

open Accumulator in
/-- Two slots come to the same in either order, unless they are sums or different values. -/
theorem combine?_comm {a b : Slot} (noSum : ∀ d, a ≠ some (.sum d))
    (agree : ∀ v w, a = some (.value v) → b = some (.value w) →
      v.isNull = false → w.isNull = false → v = w) :
  combine? a b = combine? b a
  := by
  cases a with
  | none => simp
  | some a =>
      cases b with
      | none => simp
      | some b =>
          cases a <;> cases b <;> try rfl
          case value v w =>
            cases hv : v.isNull with
            | true =>
                obtain rfl := Val.eq_null_of_isNull hv
                cases hw : w.isNull with
                | true => rw [Val.eq_null_of_isNull hw]
                | false =>
                    calc combine? (some (value .null)) (some (value w))
                        = some (some (value w)) := rfl
                      _ = some (some (value (if w.isNull then .null else w))) := by
                          rw [hw]
                          rfl
            | false =>
                cases hw : w.isNull with
                | true => simp [combine?, combine, hv, hw]
                | false => rw [agree v w rfl rfl hv hw]
          case count => simp [combine?, combine, addCounts_comm]
          case sum => simp at noSum
          case min a b => simp [combine?, combine_min, lesser_comm a b]
          case max a b => simp [combine?, combine_max, lesser_comm a b]

/-! ### Joining many slots -/

/-- Slots joined one after the other, if their kinds agree. -/
def gather? (slots : List Slot) : Option Slot :=
  slots.foldl (fun joined slot => joined.bind (combine? · slot)) (some none)

/-- Gathering one slot more combines it into those gathered before. -/
theorem gather?_concat (slots : List Slot) (slot : Slot) :
  gather? (slots ++ [slot]) = (gather? slots).bind (combine? · slot)
  := by
  rw [gather?, List.foldl_append]
  rfl

/-- Once slots of different kinds have met, the rest is not joined either. -/
theorem foldl_bind_none (slots : List Slot) :
  slots.foldl (fun joined slot => joined.bind (combine? · slot)) none = none
  := by
  induction slots with
  | nil => rfl
  | cons slot slots ih => apply ih

/-- Slots are joined into an accumulator by combining those that are present. -/
theorem foldl_bind_some (a : Accumulator) (slots : List Slot) :
  slots.foldl (fun joined slot => joined.bind (combine? · slot)) (some (some a))
    = ((slots.filterMap id).foldlM Accumulator.combine a).toOption.map some
  := by
  induction slots generalizing a with
  | nil => rfl
  | cons slot slots ih =>
      cases slot with
      | none => apply ih
      | some b =>
          have hfilter : (some b :: slots).filterMap id = b :: slots.filterMap id := rfl
          rw [List.foldl_cons, Option.bind_some, combine?, hfilter, List.foldlM_cons]
          cases a.combine b with
          | error refused => apply foldl_bind_none
          | ok c => apply ih

/-- Slots that can be joined could be joined before the last of them came. -/
theorem isSome_gather?_of_append {slots slots' : List Slot}
    (h : (gather? (slots ++ slots')).isSome) :
  (gather? slots).isSome
  := by
  by_contra hnone
  rw [Option.not_isSome_iff_eq_none, gather?] at hnone
  rw [gather?, List.foldl_append, hnone, foldl_bind_none] at h
  contradiction

/-- Gathering is joining, without a word about what was handed back. -/
theorem gather?_eq (slots : List Slot) :
  gather? slots = (joined slots).toOption
  := by
  induction slots with
  | nil => rfl
  | cons slot slots ih =>
      cases slot with
      | none => apply ih
      | some a =>
          have hfilter : (some a :: slots).filterMap id = a :: slots.filterMap id := rfl
          have hjoined : joined (some a :: slots)
              = some <$> (slots.filterMap id).foldlM Accumulator.combine a := by
            rw [joined, hfilter]
          rw [gather?, List.foldl_cons, Option.bind_some, combine?_none_left, foldl_bind_some,
            hjoined]
          cases (slots.filterMap id).foldlM Accumulator.combine a <;> rfl

/-- Slots gather into a slot exactly when joining them one after the other succeeds. -/
theorem gather?_eq_some_iff {slots : List Slot} {slot : Slot} :
  gather? slots = some slot ↔ joined slots = .ok slot
  := by
  rw [gather?_eq]
  cases joined slots <;> simp [Except.toOption]

/-- Slots of which the order does not matter: none is a sum, and all values that are not null
agree. -/
structure Concordant (slots : List Slot) : Prop where
  noSum : ∀ d, some (.sum d) ∉ slots
  agree : ∀ v w, some (.value v) ∈ slots → some (.value w) ∈ slots →
    v.isNull = false → w.isNull = false → v = w

/-- Concordant slots come to the same in any order.  A swap of two neighbours changes nothing
whatever was joined before them, since neither is a sum. -/
theorem Concordant.gather?_perm {slots slots' : List Slot} (concordant : Concordant slots)
    (perm : slots.Perm slots') :
  gather? slots = gather? slots'
  := by
  apply perm.foldl_eq'
  intro a ha b hb joined
  have noSum {c : Slot} (hc : c ∈ slots) (d : Double) : c ≠ some (.sum d) := by
    rintro rfl
    apply concordant.noSum d hc
  have comm : combine? a b = combine? b a := by
    apply combine?_comm (noSum ha)
    rintro v w rfl rfl
    apply concordant.agree v w ha hb
  cases joined with
  | none => rfl
  | some c =>
      calc (combine? c a).bind (combine? · b)
          = (combine? a b).bind (combine? c ·) := combine?_assoc (noSum ha) c b
        _ = (combine? b a).bind (combine? c ·) := by rw [comm]
        _ = (combine? c b).bind (combine? · a) := (combine?_assoc (noSum hb) c a).symm

end Slot

end Collate
