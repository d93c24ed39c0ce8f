import Mathlib.Data.List.Sort

/-!
# Stable sorting by insertion

A stable sort takes elements one after the other and puts each behind all that may stand before
it.  Hence whoever needs no more than the first `n` elements of a sorted list may cut it to `n`
elements before more are added: what was cut away would have stayed behind the first `n`.
-/

namespace Collate

variable {α : Type} {le : α → α → Bool}

/-- Puts an element behind the leading elements that may stand before it. -/
def insertBehind (le : α → α → Bool) (x : α) : List α → List α
  | [] => [x]
  | y :: ys => if le y x then y :: insertBehind le x ys else x :: y :: ys

theorem mem_insertBehind {x y : α} {l : List α} :
  y ∈ insertBehind le x l ↔ y = x ∨ y ∈ l
  := by
  induction l with
  | nil => simp [insertBehind]
  | cons z l ih =>
      rw [insertBehind]
      split
      · rw [List.mem_cons, ih, List.mem_cons]
        apply or_left_comm
      · apply List.mem_cons

theorem insertBehind_append_of_le {x : α} {s : List α} (t : List α)
    (h : ∀ y ∈ s, le y x = true) :
  insertBehind le x (s ++ t) = s ++ insertBehind le x t
  := by
  induction s with
  | nil => rfl
  | cons y s ih =>
      rw [List.cons_append, insertBehind, if_pos (h y List.mem_cons_self), ih]
      · rfl
      · intro z hz
        apply h z (List.mem_cons_of_mem y hz)

theorem insertBehind_append_of_not_le {x : α} (s : List α) {t : List α}
    (h : ∀ y ∈ t, ¬ le y x = true) :
  insertBehind le x (s ++ t) = insertBehind le x s ++ t
  := by
  induction s with
  | nil =>
      cases t with
      | nil => rfl
      | cons y t => simp [insertBehind, h y List.mem_cons_self]
  | cons y s ih =>
      rw [List.cons_append, insertBehind, insertBehind]
      split
      · rw [ih]
        rfl
      · rfl

/-- An element before which none may stand comes first. -/
theorem insertBehind_of_not_le {x : α} {l : List α} (h : ∀ y ∈ l, ¬ le y x = true) :
  insertBehind le x l = x :: l
  := insertBehind_append_of_not_le [] h

/-- Elements that the first one may precede are inserted behind it. -/
theorem foldl_insertBehind_cons {x : α} {m : List α} (h : ∀ y ∈ m, le x y = true) (l : List α) :
  m.foldl (fun s y => insertBehind le y s) (x :: l)
    = x :: m.foldl (fun s y => insertBehind le y s) l
  := by
  induction m generalizing l with
  | nil => rfl
  | cons y m ih =>
      rw [List.foldl_cons, insertBehind, if_pos (h y List.mem_cons_self),
        ih fun z hz => h z (List.mem_cons_of_mem _ hz)]
      rfl

/-- Sorted such that those that satisfy a predicate come first among elements that compare equal. -/
def Before (le : α → α → Bool) (p : α → Bool) (x y : α) : Prop :=
  le x y = true ∧ (p x = false → p y = true → ¬ le y x = true)

/-- The first elements after an insertion depend on no more than the first elements before. -/
theorem take_insertBehind (n : ℕ) (x : α) (l : List α) :
  (insertBehind le x (l.take n)).take n = (insertBehind le x l).take n
  := by
  induction l generalizing n with
  | nil => simp
  | cons y l ih =>
      cases n with
      | zero => rfl
      | succ n =>
          rw [List.take_succ_cons, insertBehind, insertBehind]
          split
          · rw [List.take_succ_cons, List.take_succ_cons, ih]
          · cases n with
            | zero => rfl
            | succ n => simp [List.take_take]

theorem take_foldl_insertBehind (n : ℕ) (l m : List α) :
  (m.foldl (fun s x => insertBehind le x s) (l.take n)).take n
    = (m.foldl (fun s x => insertBehind le x s) l).take n
  := by
  induction m generalizing l with
  | nil => simp [List.take_take]
  | cons x m ih =>
      rw [List.foldl_cons, List.foldl_cons, ← ih, take_insertBehind, ih]

/-- A list is parted by a predicate in at most one place. -/
theorem append_inj_of_forall {p : α → Prop} {s s' t t' : List α} (h : s ++ t = s' ++ t')
    (hs : ∀ x ∈ s, ¬ p x) (hs' : ∀ x ∈ s', ¬ p x) (ht : ∀ x ∈ t, p x) (ht' : ∀ x ∈ t', p x) :
  s = s' ∧ t = t'
  := by
  classical
  have later : ∀ {s t : List α}, (∀ x ∈ s, ¬ p x) → (∀ x ∈ t, p x) →
      (s ++ t).filter (fun x => p x) = t := by
    intro s t hs ht
    rw [List.filter_append, List.filter_eq_nil_iff.mpr, List.filter_eq_self.mpr]
    · rfl
    · simpa using ht
    · simpa using hs
  obtain rfl : t = t' := by
    rw [← later hs ht, h, later hs' ht']
  constructor
  · apply List.append_cancel_right h
  · rfl

section

variable (trans : ∀ a b c, le a b = true → le b c = true → le a c = true)
  (total : ∀ a b, (le a b || le b a) = true)
include trans total

/-- The first element of a list comes to stand between those that must precede it and those
that it may precede. -/
theorem mergeSort_cons_split (a : α) (l : List α) :
  ∃ s t, (a :: l).mergeSort le = s ++ a :: t ∧ l.mergeSort le = s ++ t
    ∧ (∀ b ∈ s, ¬ le a b = true) ∧ ∀ b ∈ t, le a b = true
  := by
  obtain ⟨s, t, hal, hl, hs⟩ := List.mergeSort_cons trans total a l
  have sorted := List.pairwise_mergeSort trans total (a :: l)
  rw [hal] at sorted
  have hat := (List.pairwise_append.mp sorted).2.1
  use s, t, hal, hl, by simpa using hs
  intro b hb
  apply List.rel_of_pairwise_cons hat hb

theorem mergeSort_concat (l : List α) (x : α) :
  (l ++ [x]).mergeSort le = insertBehind le x (l.mergeSort le)
  := by
  induction l with
  | nil => simp [insertBehind]
  | cons a l ih =>
      obtain ⟨s, t, halx, hlx, hs, ht⟩ := mergeSort_cons_split trans total a (l ++ [x])
      obtain ⟨s', t', hal, hl, hs', ht'⟩ := mergeSort_cons_split trans total a l
      rw [hlx, hl] at ih
      rw [List.cons_append, halx, hal]
      by_cases hax : le a x = true
      · have below : ∀ b ∈ s', le b x = true := by
          intro b hb
          have hba : le b a = true := by simpa [hs' b hb] using total a b
          apply trans b a x hba hax
        rw [insertBehind_append_of_le t' below] at ih
        rw [insertBehind_append_of_le (a :: t') below, insertBehind, if_pos hax]
        have hxt : ∀ b ∈ insertBehind le x t', le a b = true := by
          intro b hb
          obtain rfl | hb := mem_insertBehind.mp hb
          · apply hax
          · apply ht' b hb
        obtain ⟨rfl, rfl⟩ := append_inj_of_forall ih hs hs' ht hxt
        rfl
      · have above : ∀ b ∈ a :: t', ¬ le b x = true := by
          intro b hb hbx
          obtain rfl | hb := List.mem_cons.mp hb
          · apply hax hbx
          · apply hax (trans a b x (ht' b hb) hbx)
        have above' : ∀ b ∈ t', ¬ le b x = true := by
          intro b hb
          apply above b (List.mem_cons_of_mem a hb)
        rw [insertBehind_append_of_not_le s' above'] at ih
        rw [insertBehind_append_of_not_le s' above]
        have hxs : ∀ b ∈ insertBehind le x s', ¬ le a b = true := by
          intro b hb
          obtain rfl | hb := mem_insertBehind.mp hb
          · apply hax
          · apply hs' b hb
        obtain ⟨rfl, rfl⟩ := append_inj_of_forall ih hs hxs ht ht'
        rfl

/-- Sorting a longer list is inserting the new elements one after the other. -/
theorem mergeSort_append (l m : List α) :
  (l ++ m).mergeSort le = m.foldl (fun s x => insertBehind le x s) (l.mergeSort le)
  := by
  induction m generalizing l with
  | nil => simp
  | cons x m ih =>
      rw [← List.singleton_append, ← List.append_assoc, ih, mergeSort_concat trans total]
      rfl

/-- A sorted list may be cut before more is added to it, as long as no more of the sorted
result is needed. -/
theorem take_mergeSort_take (n : ℕ) (l m : List α) :
  (((l.mergeSort le).take n ++ m).mergeSort le).take n = ((l ++ m).mergeSort le).take n
  := by
  have cut : ((l.mergeSort le).take n).mergeSort le = (l.mergeSort le).take n := by
    apply List.mergeSort_of_pairwise
    apply (List.pairwise_mergeSort trans total l).sublist (List.take_sublist n _)
  rw [mergeSort_append trans total, mergeSort_append trans total, cut, take_foldl_insertBehind]

/-! ### Sorting what satisfies a predicate first -/

/-- Where an element that does not satisfy the predicate is put behind its equals, those that do
still come first. -/
theorem pairwise_insertBehind {p : α → Bool} {x : α} {l : List α} (hx : p x = false)
    (h : l.Pairwise (Before le p)) :
  (insertBehind le x l).Pairwise (Before le p)
  := by
  induction l with
  | nil => simp [insertBehind]
  | cons y l ih =>
      obtain ⟨hy, hl⟩ := List.pairwise_cons.mp h
      rw [insertBehind]
      by_cases hyx : le y x = true
      · rw [if_pos hyx, List.pairwise_cons]
        use ?_, ih hl
        intro z hz
        obtain rfl | hz := mem_insertBehind.mp hz
        · use hyx
          simp [hx]
        · apply hy z hz
      · have hxy : le x y = true := by simpa [hyx] using total x y
        rw [if_neg hyx, List.pairwise_cons]
        use ?_, h
        intro z hz
        obtain rfl | hz := List.mem_cons.mp hz
        · exact ⟨hxy, fun _ _ => hyx⟩
        · use trans x y z hxy (hy z hz).1
          intro _ _ hzx
          apply hyx (trans y z x (hy z hz).1 hzx)

/-- Whatever comes first is sorted to the first place among its equals. -/
theorem pairwise_mergeSort_append {p : α → Bool} {l m : List α} (hl : ∀ x ∈ l, p x = true)
    (hm : ∀ x ∈ m, p x = false) :
  ((l ++ m).mergeSort le).Pairwise (Before le p)
  := by
  rw [mergeSort_append trans total]
  have hsorted : (l.mergeSort le).Pairwise (Before le p) := by
    apply List.Pairwise.imp_of_mem _ (List.pairwise_mergeSort trans total l)
    intro x y hx _ hxy
    use hxy
    simp [hl x (List.mem_mergeSort.mp hx)]
  generalize l.mergeSort le = s at hsorted
  induction m generalizing s with
  | nil => apply hsorted
  | cons x m ih =>
      apply ih fun y hy => hm y (List.mem_cons_of_mem _ hy)
      apply pairwise_insertBehind trans total (hm x List.mem_cons_self) hsorted

/-- An element that precedes all others is sorted to the first place. -/
theorem mergeSort_append_cons {x : α} {l m : List α} (hl : ∀ y ∈ l, ¬ le y x = true)
    (hm : ∀ y ∈ m, le x y = true) :
  (l ++ x :: m).mergeSort le = x :: (l ++ m).mergeSort le
  := by
  have hl' : ∀ y ∈ l.mergeSort le, ¬ le y x = true := by
    intro y hy
    apply hl y (List.mem_mergeSort.mp hy)
  rw [← List.singleton_append, ← List.append_assoc, mergeSort_append trans total,
    mergeSort_concat trans total, insertBehind_of_not_le hl', foldl_insertBehind_cons hm,
    ← mergeSort_append trans total]

/-- A list that is taken apart by a predicate is put together again by sorting, if among equals
those that satisfy the predicate came first. -/
theorem mergeSort_filter_append_filter {p : α → Bool} {l : List α} (h : l.Pairwise (Before le p)) :
  (l.filter p ++ l.filter fun x => !p x).mergeSort le = l
  := by
  induction l with
  | nil => simp
  | cons x l ih =>
      obtain ⟨hx, hl⟩ := List.pairwise_cons.mp h
      have hfilter {q : α → Bool} : ∀ y ∈ l.filter q, le x y = true := by
        intro y hy
        apply (hx y (List.mem_filter.mp hy).1).1
      cases hp : p x with
      | true =>
          rw [List.filter_cons_of_pos hp, List.filter_cons_of_neg (by simp [hp]), List.cons_append,
            ← List.nil_append (x :: _), mergeSort_append_cons trans total (by simp), List.nil_append,
            ih hl]
          intro y hy
          obtain hy | hy := List.mem_append.mp hy
          · apply hfilter y hy
          · apply hfilter y hy
      | false =>
          rw [List.filter_cons_of_neg (by simp [hp]), List.filter_cons_of_pos (by simp [hp]),
            mergeSort_append_cons trans total, ih hl]
          · intro y hy
            obtain ⟨hy, hpy⟩ := List.mem_filter.mp hy
            apply (hx y hy).2 hp hpy
          · apply hfilter

/-! ### Parts of a sorted list -/

/-- Each part of a sorted list is what sorting a part of the list gives. -/
theorem exists_sublist_mergeSort {s l : List α} (h : s.Sublist (l.mergeSort le)) :
  ∃ kept : List α, kept.Sublist l ∧ kept.mergeSort le = s
  := by
  induction l generalizing s with
  | nil =>
      obtain rfl : s = [] := by simpa using h
      use [], List.Sublist.refl _
      simp
  | cons a l ih =>
      obtain ⟨before, after, hal, hl, hbefore, hafter⟩ := mergeSort_cons_split trans total a l
      rw [hal] at h
      obtain ⟨s₁, s₂, rfl, h₁, h₂⟩ := List.sublist_append_iff.mp h
      cases h₂ with
      | cons _ h₂ =>
          obtain ⟨kept, hkept, hsort⟩ := ih (s := s₁ ++ s₂) (by rw [hl]; exact h₁.append h₂)
          exact ⟨kept, hkept.cons _, hsort⟩
      | @cons_cons s₂ _ _ h₂ =>
          obtain ⟨kept, hkept, hsort⟩ := ih (s := s₁ ++ s₂) (by rw [hl]; exact h₁.append h₂)
          use a :: kept, hkept.cons_cons a
          obtain ⟨t₁, t₂, hak, hk, ht₁, ht₂⟩ := mergeSort_cons_split trans total a kept
          have hparts : t₁ = s₁ ∧ t₂ = s₂ := by
            apply append_inj_of_forall (p := fun b => le a b = true) (hk.symm.trans hsort) ht₁ _ ht₂
            · intro b hb
              apply hafter b (h₂.subset hb)
            · intro b hb
              apply hbefore b (h₁.subset hb)
          rw [hak, hparts.1, hparts.2]

omit trans total in
theorem le_countP_of_sorted {l : List α} (sorted : l.Pairwise fun a b => le a b = true)
    {p : α → Bool} {i : ℕ} (hi : i < l.length)
    (below : ∀ a, le a l[i] = true → p a = true) (hp : p l[i] = true) :
  i + 1 ≤ l.countP p
  := by
  have all : ∀ a ∈ l.take (i + 1), p a = true := by
    intro a ha
    obtain ⟨j, hj, rfl⟩ := List.mem_iff_getElem.mp ha
    rw [List.length_take] at hj
    rw [List.getElem_take]
    obtain hji | rfl := Nat.lt_or_eq_of_le (show j ≤ i by omega)
    · apply below
      apply List.pairwise_iff_getElem.mp sorted j i _ hi hji
    · apply hp
  calc i + 1 = (l.take (i + 1)).length := by rw [List.length_take]; omega
    _ = (l.take (i + 1)).countP p := (List.countP_eq_length.mpr all).symm
    _ ≤ l.countP p := (List.take_sublist _ l).countP_le

omit trans total in
theorem countP_le_of_sorted {l : List α} (sorted : l.Pairwise fun a b => le a b = true)
    {p : α → Bool} {i : ℕ} (hi : i < l.length)
    (above : ∀ a, le l[i] a = true → p a = false) (hp : p l[i] = false) :
  l.countP p ≤ i
  := by
  have none : ∀ a ∈ l.drop i, ¬ p a = true := by
    intro a ha
    obtain ⟨j, hj, rfl⟩ := List.mem_iff_getElem.mp ha
    rw [List.length_drop] at hj
    rw [List.getElem_drop, Bool.not_eq_true]
    cases j with
    | zero => apply hp
    | succ j =>
        apply above
        apply List.pairwise_iff_getElem.mp sorted i (i + (j + 1)) hi _ (by omega)
  calc l.countP p = (l.take i).countP p + (l.drop i).countP p := by
        rw [← List.countP_append, List.take_append_drop]
    _ = (l.take i).countP p := by rw [List.countP_eq_zero.mpr none, Nat.add_zero]
    _ ≤ (l.take i).length := List.countP_le_length
    _ ≤ i := List.length_take_le i l

/-- Of two sorted lists with the same elements, neither has a greater element in any place. -/
theorem getElem_le_of_perm {l m : List α} (perm : l.Perm m)
    (hl : l.Pairwise fun a b => le a b = true) (hm : m.Pairwise fun a b => le a b = true)
    {i : ℕ} (hi : i < l.length) (hi' : i < m.length) :
  le l[i] m[i] = true
  := by
  by_contra greater
  have refl : ∀ a, le a a = true := by
    intro a
    simpa using total a a
  let p : α → Bool := fun a => !le l[i] a
  have hmp : i + 1 ≤ m.countP p := by
    apply le_countP_of_sorted hm hi'
    · intro a ha
      rw [Bool.not_eq_true', ← Bool.not_eq_true]
      intro hla
      apply greater (trans _ _ _ hla ha)
    · simpa [p] using greater
  have hlp : l.countP p ≤ i := by
    apply countP_le_of_sorted hl hi
    · intro a ha
      simp [p, ha]
    · simp [p, refl]
  rw [perm.countP_eq] at hlp
  omega

end

end Collate
