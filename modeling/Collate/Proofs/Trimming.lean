import Collate.Proofs.Walk

/-!
# Trimming what is held and limiting what is shown

Trimming takes the parents that wait for it in any order and cuts the rows of each, while a walk
goes down from group to group and shows the first rows of each.  Both come to the same keys, so
that a row is shown after a trim if and only if it is shown without one, under bounds that are at
each depth the smaller of the two.
-/

namespace Collate

namespace Sizes

/-- Bounds that are at each depth the smaller of two. -/
def meet (s t : Sizes) : Sizes :=
  ⟨(List.range (max s.declared.length t.declared.length)).map fun depth =>
    min (s.size depth) (t.size depth)⟩

/-- From the last declared depth on, all depths have the same bound. -/
theorem size_of_length_le {s : Sizes} {depth : ℕ} (h : s.declared.length ≤ depth + 1) :
  s.size depth = s.declared.getLastD (UInt64.ofNat (UInt64.size - 1))
  := by
  rw [size]
  split
  next n hn =>
    obtain ⟨hlt, -⟩ := List.getElem?_eq_some_iff.mp hn
    obtain rfl : depth = s.declared.length - 1 := by omega
    rw [← List.getLast?_eq_getElem?] at hn
    rw [List.getLastD_eq_getLast?, hn]
    rfl
  next => rfl

/-- The bound of two sizes at a depth is the lesser of theirs.  Beyond the declared depths the bound
is that of the last one, if there is any. -/
theorem size_meet (s t : Sizes) (depth : ℕ) :
  (s.meet t).size depth = min (s.size depth) (t.size depth)
  := by
  have hlength : (s.meet t).declared.length = max s.declared.length t.declared.length := by
    simp [meet]
  by_cases h : depth < max s.declared.length t.declared.length
  · rw [size, meet, List.getElem?_map, List.getElem?_range h]
    rfl
  · rw [size_of_length_le (by omega), size_of_length_le (by omega), size_of_length_le (by omega)]
    rcases hn : max s.declared.length t.declared.length with _ | n
    · have hs : s.declared = [] := List.length_eq_zero_iff.mp (by omega)
      have ht : t.declared = [] := List.length_eq_zero_iff.mp (by omega)
      simp only [meet, hs, ht, List.getLastD_nil]
      rfl
    · rw [meet, hn, List.range_succ, List.map_append, List.map_singleton, List.getLastD_concat,
        size_of_length_le (by omega), size_of_length_le (by omega)]

/-- Cutting twice is cutting once, by the smaller of the two bounds. -/
theorem cut_cut {s t least : Sizes} {depth : ℕ}
    (h : least.size depth = min (s.size depth) (t.size depth)) {α : Type} (rows : List α) :
  t.cut depth (s.cut depth rows) = least.cut depth rows
  := by
  simp only [cut, List.take_take, h, UInt64.toNat_min, Nat.min_comm]

end Sizes

namespace Builder

/-- A snapshot shows after a trim what it shows without one under the smaller bounds. -/
theorem walk_create_trim (b : Builder) {sizes limits least : Sizes}
    (h : ∀ depth, least.size depth = min (sizes.size depth) (limits.size depth))
    (total total' : UInt64) :
  ((b.trim sizes).create total).walk limits .root = (b.create total').walk least .root
  := by
  have htrimmed {key : Key} (reached : Reachable sizes b.sort.rowsByParent.children key) :
      ((b.trim sizes).create total).children key
        = sizes.cut key.length ((b.create total').children key) := by
    rw [create, sort_trim]
    apply children_visit reached
  apply Snapshot.walk_congr (P := Reachable sizes b.sort.rowsByParent.children) Reachable.root
  case shown =>
    intro key reached
    rw [htrimmed reached, Sizes.cut_cut (h _)]
  case down =>
    intro key reached row hrow group hgroup _
    rw [htrimmed reached] at hrow
    apply reached.group (List.mem_of_mem_take hrow)
    rw [hgroup]
    rfl

/-- Whatever rows a builder has taken, trimming it and then limiting what is shown comes to the same
as limiting alone, by bounds that are at each depth the smaller of the two.  So a trim does not show
where at no depth more may be shown than is held. -/
theorem trimming_agrees_limiting (b : Builder) (sizes limits : Sizes) (total total' : UInt64) :
  (∀ depth, (sizes.meet limits).size depth = min (sizes.size depth) (limits.size depth))
    ∧ ((b.trim sizes).create total).walk limits .root
      = (b.create total').walk (sizes.meet limits) .root
    ∧ ((∀ depth, limits.size depth ≤ sizes.size depth) →
      ((b.trim sizes).create total).walk limits .root = (b.create total').walk limits .root)
  := by
  use sizes.size_meet limits, ?meet, ?hidden
  case meet => apply b.walk_create_trim (sizes.size_meet limits)
  case hidden =>
    intro h
    apply b.walk_create_trim
    intro depth
    rw [← UInt64.toNat_inj, UInt64.toNat_min, Nat.min_eq_right]
    apply UInt64.le_iff_toNat_le.mp (h depth)

/-- Two rows for one group with details beneath it, a row for the root itself, and rows beneath
groups that are not there. -/
def misfits : List Row :=
  let a : Key := ⟨[.text "a"]⟩
  [⟨.group a, [some (.count 1)]⟩, ⟨.detail a, [none]⟩, ⟨.group .root, [some (.count 2)]⟩,
    ⟨.group (a.child .null), [none]⟩, ⟨.group a, [some (.count 3)]⟩,
    ⟨.detail (a.child (.boolean true)), [none]⟩, ⟨.detail ⟨[.text "b"]⟩, [some (.count 4)]⟩]

theorem trimming_agrees_limiting_misfits :
  let plan : Plan := ⟨1, some 1, some 2, []⟩
  let read := (empty plan).read (.ofRows misfits)
  let whole := read.1.create 7
  let trimmed := (read.1.trim ⟨[2, 1]⟩).create 7
  read.2 = none
    ∧ whole.size = 7
    ∧ trimmed.size = 3
    ∧ trimmed.walk ⟨[3, 2]⟩ .root = whole.walk ((Sizes.mk [2, 1]).meet ⟨[3, 2]⟩) .root
    ∧ trimmed.walk ⟨[2, 1, 1]⟩ .root = whole.walk ⟨[2, 1, 1]⟩ .root
  := by
  intro plan read whole trimmed
  have agrees (limits : Sizes) := trimming_agrees_limiting read.1 ⟨[2, 1]⟩ limits 7 7
  refine ⟨by decide +kernel, by decide +kernel, by decide +kernel, (agrees _).2.1, (agrees _).2.2 ?_⟩
  intro depth
  have hdepth : (Sizes.mk [2, 1, 1]).size depth = (Sizes.mk [2, 1]).size depth := by
    match depth with
    | 0 | 1 | 2 => rfl
    | depth + 3 => rw [Sizes.size_of_length_le (by simp), Sizes.size_of_length_le (by simp)]; rfl
  rw [hdepth]
  apply UInt64.le_refl

end Builder

end Collate
