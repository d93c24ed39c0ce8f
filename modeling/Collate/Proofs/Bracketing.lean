import Collate.Proofs.Verdict

/-!
# Combining in any grouping

Accumulators other than sums may be put in brackets in any way: what they come to, or whether they
are refused, depends on their order alone.  Where all are of one kind nothing is refused, and they
come to their total, to the least or the greatest of their values, or to the first value that is not
null.  Which of these holds of a bracketing follows from what holds of its two parts.
-/

namespace Collate

namespace Accumulator

/-- Of two observed values the first one is kept, unless it is null. -/
theorem combine_value (v w : Val) :
  combine (.value v) (.value w) = .ok (.value (if v.isNull then w else v))
  := rfl

/-- Two counts add up, staying at the greatest count rather than wrapping. -/
theorem combine_count (m n : UInt64) :
  combine (.count m) (.count n) = .ok (.count (addCounts m n))
  := rfl

/-- Two accumulators combined, if they are of one kind. -/
def join? (a b : Accumulator) : Option Accumulator :=
  (a.combine b).toOption

/-- Two present slots combine as their accumulators join. -/
theorem combine?_some (a b : Accumulator) :
  Slot.combine? (some a) (some b) = (a.join? b).map some
  := by
  rw [Slot.combine?, join?]
  cases a.combine b <;> rfl

/-- Three accumulators come to the same, or are refused, whichever two are combined first. -/
theorem join?_assoc {b : Accumulator} (noSum : b.kind ≠ .sum) (a c : Accumulator) :
  (a.join? b).bind (·.join? c) = (b.join? c).bind (a.join? ·)
  := by
  have hb : ∀ d, some b ≠ some (.sum d) := by
    rintro d ⟨⟩
    apply noSum rfl
  have hslots := Slot.combine?_assoc hb (some a) (some c)
  apply Option.map_injective (Option.some_injective Accumulator)
  simpa [combine?_some, Option.map_bind, Option.bind_map, Function.comp_def] using hslots

/-- Joining keeps the kind, which both sides share. -/
theorem kind_of_join? {a b c : Accumulator} (h : a.join? b = some c) :
  a.kind = c.kind ∧ b.kind = c.kind
  := by
  obtain ⟨hkind, d, hd, hsame⟩ | ⟨-, hrefused⟩ := a.combine_cases b
  · obtain rfl : d = c := by simpa [join?, hd, Except.toOption] using h
    use hsame.symm, hkind.symm.trans hsame.symm
  · simp [join?, hrefused, Except.toOption] at h

/-- Two accumulators of one kind come to the same in either order, unless they are first values or
sums. -/
theorem combine_comm {a b : Accumulator} (hkind : a.kind = b.kind) (noValue : a.kind ≠ .value)
    (noSum : a.kind ≠ .sum) :
  a.combine b = b.combine a
  := by
  cases a <;> cases b <;> try simp [kind] at hkind noValue noSum
  case count => rw [combine, combine, addCounts_comm]
  case min => rw [combine_min, combine_min, lesser_comm]
  case max => rw [combine_max, combine_max, lesser_comm]

/-- Accumulators refuse each other exactly when their kinds differ. -/
theorem absorb_refused_iff (a b : Accumulator) :
  (a.absorb b).2 ≠ none ↔ a.kind ≠ b.kind
  := by
  obtain ⟨hkind, c, hc, -⟩ | ⟨hkind, hrefused⟩ := a.combine_cases b
  · simp [absorb, hc, hkind]
  · simp [absorb, hrefused, hkind]

/-- A refusal leaves the accumulator as it was and hands the other one back. -/
theorem absorb_of_refused {a b refused : Accumulator} (h : (a.absorb b).2 = some refused) :
  (a.absorb b).1 = a ∧ refused = b
  := by
  obtain ⟨-, c, hc, -⟩ | ⟨-, hrefused⟩ := a.combine_cases b
  · simp [absorb, hc] at h
  · simpa [absorb, hrefused, eq_comm] using h

/-- Combining with it changes no accumulator of its kind. -/
def IsIdentity (e : Accumulator) : Prop :=
  ∀ a : Accumulator, a.kind = e.kind → e.combine a = .ok a ∧ a.combine e = .ok a

theorem isIdentity_value :
  IsIdentity (.value .null)
  := by
  intro a hkind
  cases a with
  | value v => cases v <;> exact ⟨rfl, rfl⟩
  | _ => contradiction

theorem isIdentity_count :
  IsIdentity (.count 0)
  := by
  intro a hkind
  cases a with
  | count n =>
      have hzero : addCounts 0 n = n := by
        have := n.toNat_lt
        rw [← UInt64.toNat_inj, toNat_addCounts, UInt64.size, UInt64.toNat_zero, Nat.zero_add]
        apply Nat.min_eq_left
        omega
      rw [combine, combine, addCounts_comm n 0, hzero]
      exact ⟨rfl, rfl⟩
  | _ => contradiction

theorem isIdentity_min :
  IsIdentity (.min .null)
  := by
  intro a hkind
  cases a with
  | min v => cases v <;> exact ⟨rfl, rfl⟩
  | _ => contradiction

theorem isIdentity_max :
  IsIdentity (.max .null)
  := by
  intro a hkind
  cases a with
  | max v => cases v <;> exact ⟨rfl, rfl⟩
  | _ => contradiction

end Accumulator

/-- Accumulators put in brackets. -/
inductive Bracketing where
  | single (a : Accumulator)
  | join (left right : Bracketing)

namespace Bracketing

open Accumulator

/-- The accumulators without the brackets. -/
def members : Bracketing → List Accumulator
  | single a => [a]
  | join left right => left.members ++ right.members

/-- What the accumulators come to, combined from the inside out. -/
def result? : Bracketing → Option Accumulator
  | single a => some a
  | join left right => left.result?.bind fun a => right.result?.bind (a.join? ·)

/-- Accumulators combined one after the other. -/
def inTurn (a : Accumulator) (bs : List Accumulator) : Option Accumulator :=
  bs.foldlM join? a

/-- A bracketing has at least one member. -/
theorem exists_members_eq_cons (t : Bracketing) :
  ∃ a as, t.members = a :: as
  := by
  induction t with
  | single a => exact ⟨a, [], rfl⟩
  | join left right ihl _ =>
      obtain ⟨a, as, h⟩ := ihl
      use a, as ++ right.members
      rw [members, h, List.cons_append]

/-- The result of a bracketing has the kind of each of its members. -/
theorem kind_of_result? {t : Bracketing} {c : Accumulator} (h : t.result? = some c) :
  ∀ a ∈ t.members, a.kind = c.kind
  := by
  induction t generalizing c with
  | single a =>
      obtain rfl : a = c := by simpa [result?] using h
      simp [members]
  | join left right ihl ihr =>
      simp only [result?, Option.bind_eq_some_iff] at h
      obtain ⟨a, ha, b, hb, hc⟩ := h
      obtain ⟨hac, hbc⟩ := kind_of_join? hc
      intro d hd
      obtain hd | hd := List.mem_append.mp hd
      · rw [ihl ha d hd, hac]
      · rw [ihr hb d hd, hbc]

/-- A bracketing free of sums does not result in a sum. -/
theorem kind_ne_sum_of_result? {t : Bracketing} (noSum : ∀ a ∈ t.members, a.kind ≠ .sum)
    {c : Accumulator} (h : t.result? = some c) :
  c.kind ≠ .sum
  := by
  obtain ⟨a, as, hmembers⟩ := t.exists_members_eq_cons
  have ha : a ∈ t.members := by
    rw [hmembers]
    apply List.mem_cons_self
  rw [← kind_of_result? h a ha]
  apply noSum a ha

/-- Folding a list in turn folds its first part and then, from there, its second. -/
theorem inTurn_append (a : Accumulator) (bs cs : List Accumulator) :
  inTurn a (bs ++ cs) = (inTurn a bs).bind (inTurn · cs)
  := List.foldlM_append

/-- Combining with what is in brackets is combining with each of the accumulators in turn. -/
theorem bind_result?_join? {t : Bracketing} (noSum : ∀ a ∈ t.members, a.kind ≠ .sum)
    (c : Accumulator) :
  t.result?.bind (c.join? ·) = inTurn c t.members
  := by
  induction t generalizing c with
  | single a => simp [result?, members, inTurn]
  | join left right ihl ihr =>
      rw [members, List.forall_mem_append] at noSum
      obtain ⟨noSumLeft, noSumRight⟩ := noSum
      rw [members, inTurn_append, ← ihl noSumLeft, result?]
      cases hleft : left.result? with
      | none => rfl
      | some a =>
          simp only [Option.bind_some, ← ihr noSumRight]
          cases right.result? with
          | none => simp
          | some b =>
              apply (join?_assoc (kind_ne_sum_of_result? noSumLeft hleft) c b).symm

/-- What is in brackets comes to what its accumulators come to one after the other. -/
theorem result?_eq_inTurn {t : Bracketing} (noSum : ∀ a ∈ t.members, a.kind ≠ .sum)
    {a : Accumulator} {as : List Accumulator} (hmembers : t.members = a :: as) :
  t.result? = inTurn a as
  := by
  induction t generalizing as with
  | single b =>
      obtain ⟨rfl, rfl⟩ : b = a ∧ as = [] := by simpa [members, eq_comm] using hmembers
      rfl
  | join left right ihl _ =>
      rw [members, List.forall_mem_append] at noSum
      obtain ⟨noSumLeft, noSumRight⟩ := noSum
      obtain ⟨b, bs, hleft⟩ := left.exists_members_eq_cons
      rw [members, hleft, List.cons_append, List.cons.injEq] at hmembers
      obtain ⟨rfl, rfl⟩ := hmembers
      rw [result?, ihl noSumLeft hleft, inTurn_append]
      simp only [bind_result?_join? noSumRight]

/-- Brackets do not matter. -/
theorem result?_eq_of_members_eq {t t' : Bracketing} (noSum : ∀ a ∈ t.members, a.kind ≠ .sum)
    (h : t.members = t'.members) :
  t.result? = t'.result?
  := by
  obtain ⟨a, as, hmembers⟩ := t.exists_members_eq_cons
  rw [result?_eq_inTurn noSum hmembers]
  rw [h] at noSum hmembers
  rw [result?_eq_inTurn noSum hmembers]

/-! ### Accumulators of one kind -/

/-- What is true of a single accumulator of a kind, and of the combination of two if it is true of
both, is true of whatever accumulators of that kind in brackets come to. -/
theorem result?_induction {α : Type} {make : α → Accumulator} {op : α → α → α}
    (combines : ∀ x y, (make x).combine (make y) = .ok (make (op x y)))
    (Sums : List α → α → Prop) (single : ∀ x, Sums [x] x)
    (join : ∀ {xs ys x y}, Sums xs x → Sums ys y → Sums (xs ++ ys) (op x y))
    {t : Bracketing} {xs : List α} (h : t.members = xs.map make) :
  ∃ x, t.result? = some (make x) ∧ Sums xs x
  := by
  induction t generalizing xs with
  | single a =>
      obtain ⟨x, rfl, rfl⟩ := List.map_eq_singleton_iff.mp h.symm
      use x, rfl, single x
  | join left right ihl ihr =>
      obtain ⟨ys, zs, rfl, hleft, hright⟩ := List.map_eq_append_iff.mp h.symm
      obtain ⟨y, hy, hys⟩ := ihl hleft.symm
      obtain ⟨z, hz, hzs⟩ := ihr hright.symm
      use op y z
      constructor
      · simp [result?, hy, hz, join?, combines, Except.toOption]
      · apply join hys hzs

/-- An element of a list that comes no later than any of them. -/
def IsFirst {α : Type} (cmp : α → α → Ordering) (xs : List α) (x : α) : Prop :=
  x ∈ xs ∧ ∀ y ∈ xs, (cmp x y).isLE

/-- The only element of a list is the first of it. -/
theorem isFirst_single {α : Type} {cmp : α → α → Ordering} [Std.ReflCmp cmp] (x : α) :
  IsFirst cmp [x] x
  := by
  use List.mem_singleton_self x
  simp [Std.ReflCmp.compare_self]

/-- The lesser of the firsts of two lists is the first of both taken together. -/
theorem IsFirst.lesser {α : Type} {cmp : α → α → Ordering} [Std.TransCmp cmp] {xs ys : List α}
    {x y : α} (hx : IsFirst cmp xs x) (hy : IsFirst cmp ys y) :
  IsFirst cmp (xs ++ ys) (lesser cmp x y)
  := by
  rw [Collate.lesser]
  split
  case isTrue hxy =>
    use List.mem_append_left ys hx.1
    rw [List.forall_mem_append]
    use hx.2
    intro z hz
    apply Std.TransCmp.isLE_trans hxy (hy.2 z hz)
  case isFalse hxy =>
    use List.mem_append_right xs hy.1
    rw [List.forall_mem_append]
    refine ⟨?_, hy.2⟩
    intro z hz
    have hyx : cmp y x = .lt := Std.OrientedCmp.lt_of_not_isLE hxy
    apply Std.TransCmp.isLE_trans _ (hx.2 z hz)
    rw [hyx]
    rfl

/-- The least value of a list that is not null; null if there is none. -/
def IsLeastPresent (vs : List Val) (v : Val) : Prop :=
  (v = .null ∧ ∀ w ∈ vs, w = .null)
    ∨ (v ∈ vs ∧ v ≠ .null ∧ ∀ w ∈ vs, w ≠ .null → (v.order w).isLE)

/-- The first of a list in the order that puts nulls last is its least present value. -/
theorem IsFirst.isLeastPresent {vs : List Val} {v : Val} (h : IsFirst Val.orderNullLast vs v) :
  IsLeastPresent vs v
  := by
  obtain ⟨hv, hle⟩ := h
  by_cases hnull : v = .null
  · left
    use hnull
    intro w hw
    have hvw := hle w hw
    cases w with
    | null => rfl
    | _ =>
        rw [hnull] at hvw
        contradiction
  · right
    use hv, hnull
    intro w hw hpresent
    have isNull_eq_false {u : Val} (hu : u ≠ .null) : u.isNull = false := by
      rw [← Bool.not_eq_true]
      intro h
      apply hu (Val.eq_null_of_isNull h)
    have hsame : compareOn Val.isNull v w = .eq := by
      rw [compareOn, isNull_eq_false hnull, isNull_eq_false hpresent]
      rfl
    have hvw := hle w hw
    rwa [Val.orderNullLast, compareLex, hsame, Ordering.eq_then] at hvw

/-- The first value of a list that is not null; null if there is none. -/
def firstPresent (vs : List Val) : Val :=
  (vs.find? fun v => !v.isNull).getD .null

/-- The first present value of two lists is that of the one, unless all of its values are null. -/
theorem firstPresent_append (vs ws : List Val) :
  firstPresent (vs ++ ws)
    = if (firstPresent vs).isNull then firstPresent ws else firstPresent vs
  := by
  rw [firstPresent, List.find?_append, firstPresent]
  cases hfind : vs.find? fun v => !v.isNull with
  | none => rfl
  | some v =>
      have hpresent := List.find?_some hfind
      simp only [Bool.not_eq_true'] at hpresent
      simp [hpresent]

/-- A bracketing of counts results in their sum, or in the greatest count where the sum exceeds
it. -/
theorem result?_count {t : Bracketing} {ns : List UInt64} (h : t.members = ns.map .count) :
  ∃ n, t.result? = some (.count n) ∧ n.toNat = min (ns.map (·.toNat)).sum (UInt64.size - 1)
  := by
  apply result?_induction combine_count _ ?single ?join h
  case single =>
    intro n
    have := n.toNat_lt
    rw [List.map_singleton, List.sum_singleton, UInt64.size]
    omega
  case join =>
    intro ms ns m n hm hn
    calc (addCounts m n).toNat = min (m.toNat + n.toNat) (UInt64.size - 1) := toNat_addCounts m n
      _ = min ((ms.map (·.toNat)).sum + (ns.map (·.toNat)).sum) (UInt64.size - 1) := by omega
      _ = min ((ms ++ ns).map (·.toNat)).sum (UInt64.size - 1) := by
        rw [List.map_append, List.sum_append]

/-- A bracketing of minima results in the least present value. -/
theorem result?_min {t : Bracketing} {vs : List Val} (h : t.members = vs.map .min) :
  ∃ v, t.result? = some (.min v) ∧ IsLeastPresent vs v
  := by
  obtain ⟨v, hv, hfirst⟩ := result?_induction combine_min _ isFirst_single IsFirst.lesser h
  use v, hv, hfirst.isLeastPresent

/-- A bracketing of maxima results in the greatest value. -/
theorem result?_max {t : Bracketing} {vs : List Val} (h : t.members = vs.map .max) :
  ∃ v, t.result? = some (.max v) ∧ v ∈ vs ∧ ∀ w ∈ vs, (w.order v).isLE
  := result?_induction combine_max (IsFirst Val.orderDown) isFirst_single IsFirst.lesser h

/-- A bracketing of values results in the first present one. -/
theorem result?_value {t : Bracketing} {vs : List Val} (h : t.members = vs.map .value) :
  t.result? = some (.value (firstPresent vs))
  := by
  have hsingle (v : Val) : v = firstPresent [v] := by cases v <;> rfl
  have hjoin {vs ws : List Val} {v w : Val} (hv : v = firstPresent vs) (hw : w = firstPresent ws) :
      (if v.isNull then w else v) = firstPresent (vs ++ ws) := by
    rw [firstPresent_append, hv, hw]
  obtain ⟨v, hv, rfl⟩ :=
    result?_induction combine_value (fun vs v => v = firstPresent vs) hsingle hjoin h
  apply hv

/-- Accumulators other than sums may be combined in any grouping, and each kind has one that changes
nothing.  Counts come to their total or the greatest count, and least, greatest and first values to
what their names say.  Whoever refuses an accumulator, for its kind alone, hands it back and stays
as it was. -/
theorem combination_any_grouping :
  (∀ a b c : Accumulator, a.kind ≠ .sum → b.kind ≠ .sum → c.kind ≠ .sum →
      (a.join? b).bind (·.join? c) = (b.join? c).bind (a.join? ·))
    ∧ (∀ t t' : Bracketing, (∀ a ∈ t.members, a.kind ≠ .sum) → t.members = t'.members →
      t.result? = t'.result?)
    ∧ (IsIdentity (.value .null) ∧ IsIdentity (.count 0) ∧ IsIdentity (.min .null)
      ∧ IsIdentity (.max .null))
    ∧ (∀ a b : Accumulator, a.kind = b.kind → a.kind ≠ .value → a.kind ≠ .sum →
      a.combine b = b.combine a)
    ∧ (∀ (t : Bracketing) (ns : List UInt64), t.members = ns.map .count →
      ∃ n, t.result? = some (.count n)
        ∧ n.toNat = min (ns.map (·.toNat)).sum (UInt64.size - 1))
    ∧ (∀ (t : Bracketing) (vs : List Val), t.members = vs.map .min →
      ∃ v, t.result? = some (.min v) ∧ IsLeastPresent vs v)
    ∧ (∀ (t : Bracketing) (vs : List Val), t.members = vs.map .max →
      ∃ v, t.result? = some (.max v) ∧ v ∈ vs ∧ ∀ w ∈ vs, (w.order v).isLE)
    ∧ (∀ (t : Bracketing) (vs : List Val), t.members = vs.map .value →
      t.result? = some (.value (firstPresent vs)))
    ∧ ∀ a b : Accumulator, ((a.absorb b).2 ≠ none ↔ a.kind ≠ b.kind)
      ∧ ∀ refused, (a.absorb b).2 = some refused → (a.absorb b).1 = a ∧ refused = b
  := by
  refine ⟨?assoc, ?grouping, ?identities, ?comm, ?count, ?min, ?max, ?value, ?refusal⟩
  case assoc =>
    intro a b c _ noSum _
    apply join?_assoc noSum
  case grouping =>
    intro t t' noSum
    apply result?_eq_of_members_eq noSum
  case identities => exact ⟨isIdentity_value, isIdentity_count, isIdentity_min, isIdentity_max⟩
  case comm =>
    intro a b
    apply combine_comm
  case count =>
    intro t ns
    apply result?_count
  case min =>
    intro t vs
    apply result?_min
  case max =>
    intro t vs
    apply result?_max
  case value =>
    intro t vs
    apply result?_value
  case refusal =>
    intro a b
    use absorb_refused_iff a b
    intro refused
    apply absorb_of_refused

end Bracketing

end Collate
