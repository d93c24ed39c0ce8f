import Mathlib.Data.List.MinMax
import Mathlib.Logic.Function.Iterate
import Collate.Proofs.Walk

/-!
# The descent of a walk

A walk is taken here one step at a time, with the calls that are open kept on a stack.  On any
snapshot, also one whose rows stand beneath keys that are not their parents', the steps come to an
end, and by then they have shown what the walk shows.  While they are under way, the keys of the
open calls grow longer from each call to the one within it.  So no key is visited twice on the way
down, and as all but the innermost of them have an entry in the snapshot, the way is no longer than
the longest of the entries' keys allows.
-/

namespace Collate

namespace Snapshot

/-! ### Walking step by step -/

/-- A call that is open: the key from which it walks, and the rows that it has still to show. -/
structure Frame where
  parent : Key
  waiting : List Row

/-- A walk under way: the open calls, the innermost first, and the rows shown so far. -/
structure Tour where
  calls : List Frame
  shown : List Row

/-- How many calls are open within the outermost one. -/
def Tour.depth (t : Tour) : ℕ :=
  t.calls.length - 1

/-- A call as it begins. -/
def call (s : Snapshot) (limits : Sizes) (parent : Key) : Frame :=
  ⟨parent, limits.cut parent.length (s.children parent)⟩

/-- The call that a row gives rise to, if it belongs to a group longer than the key beneath which it
stands. -/
def callFor (s : Snapshot) (limits : Sizes) (parent : Key) (row : Row) : List Frame :=
  match row.key with
  | .group key => if parent.length < key.length then [s.call limits key] else []
  | .detail _ => []

/-- One step: the innermost call shows its next row and calls for what is beneath it, or returns. -/
def step (s : Snapshot) (limits : Sizes) : Tour → Tour
  | ⟨[], shown⟩ => ⟨[], shown⟩
  | ⟨⟨_, []⟩ :: calls, shown⟩ => ⟨calls, shown⟩
  | ⟨⟨parent, row :: waiting⟩ :: calls, shown⟩ =>
    ⟨s.callFor limits parent row ++ ⟨parent, waiting⟩ :: calls, shown ++ [row]⟩

/-- A walk from the root after a number of steps. -/
def tour (s : Snapshot) (limits : Sizes) (steps : ℕ) : Tour :=
  (s.step limits)^[steps] ⟨[s.call limits .root], []⟩

/-- The length of the longest key that has an entry. -/
def longestParent (s : Snapshot) : ℕ :=
  (s.rowsByParent.entries.map fun entry => entry.1.length).foldr max 0

/-! ### The end of a walk -/

/-- A row gives rise to a call for what is shown beneath it, or nothing is shown there. -/
theorem callFor_cases (s : Snapshot) (limits : Sizes) (parent : Key) (row : Row) :
  (∃ key, row.key = .group key ∧ parent.length < key.length
      ∧ s.callFor limits parent row = [s.call limits key]
      ∧ s.beneath limits parent row = s.walk limits key)
    ∨ (s.callFor limits parent row = [] ∧ s.beneath limits parent row = [])
  := by
  rw [callFor, beneath]
  cases hkey : row.key with
  | group key =>
      by_cases longer : parent.length < key.length
      · left
        exact ⟨key, rfl, longer, if_pos longer, if_pos longer⟩
      · right
        exact ⟨if_neg longer, if_neg longer⟩
  | detail _ =>
      right
      exact ⟨rfl, rfl⟩

/-- A call comes to its end, and by then it has shown what the walk from its key shows.  The rows
that are left to it are shown one by one, each with what is beneath it. -/
theorem exists_iterate_call (s : Snapshot) (limits : Sizes) (parent : Key) :
  ∀ calls shown, ∃ n, (s.step limits)^[n] ⟨s.call limits parent :: calls, shown⟩
    = ⟨calls, shown ++ s.walk limits parent⟩
  := by
  induction parent using walk_induction s limits with
  | step parent ih =>
      intro calls shown
      rw [walk_eq, call]
      generalize hrows : limits.cut parent.length (s.children parent) = rows at ih
      clear hrows
      induction rows generalizing shown with
      | nil =>
          use 1
          rw [List.flatMap_nil, List.append_nil]
          rfl
      | cons row rows ihRows =>
          obtain ⟨hrow, hrest⟩ := List.forall_mem_cons.mp ih
          have showRow : s.step limits ⟨⟨parent, row :: rows⟩ :: calls, shown⟩
              = ⟨s.callFor limits parent row ++ ⟨parent, rows⟩ :: calls, shown ++ [row]⟩ := rfl
          rcases s.callFor_cases limits parent row with
            ⟨key, hkey, longer, hcall, hbeneath⟩ | ⟨hcall, hbeneath⟩
          · obtain ⟨n, hn⟩ := hrow key hkey longer (⟨parent, rows⟩ :: calls) (shown ++ [row])
            obtain ⟨n', hn'⟩ := ihRows (shown ++ [row] ++ s.walk limits key) hrest
            use n' + (n + 1)
            rw [Function.iterate_add_apply, Function.iterate_succ_apply, showRow, hcall,
              List.singleton_append, hn, hn', List.flatMap_cons, hbeneath]
            simp
          · obtain ⟨n, hn⟩ := ihRows (shown ++ [row]) hrest
            use n + 1
            rw [Function.iterate_succ_apply, showRow, hcall, List.nil_append, hn,
              List.flatMap_cons, hbeneath]
            simp

/-! ### The way down -/

/-- Open calls lie on a way down from the root: each but the outermost was called for a row beneath
the key of the call around it. -/
inductive Descends (s : Snapshot) : List Frame → Prop where
  | ended : Descends s []
  | root {waiting : List Row} (held : ∀ row ∈ waiting, row ∈ s.children .root) :
      Descends s [⟨.root, waiting⟩]
  | deeper {outer : Frame} {calls : List Frame} {row : Row} {key : Key} {waiting : List Row}
      (way : Descends s (outer :: calls)) (shown : row ∈ s.children outer.parent)
      (group : row.key = .group key) (longer : outer.parent.length < key.length)
      (held : ∀ row ∈ waiting, row ∈ s.children key) :
      Descends s (⟨key, waiting⟩ :: outer :: calls)

namespace Descends

variable {s : Snapshot} {call : Frame} {calls : List Frame}

theorem held (way : Descends s (call :: calls)) :
  ∀ row ∈ call.waiting, row ∈ s.children call.parent
  := by
  cases way with
  | root held => apply held
  | deeper _ _ _ _ held => apply held

/-- A call returns to the one around it. -/
theorem outer (way : Descends s (call :: calls)) :
  Descends s calls
  := by
  cases way with
  | root => apply Descends.ended
  | deeper way => apply way

/-- A call may have fewer rows left to show. -/
theorem fewer {parent : Key} {waiting waiting' : List Row}
    (way : Descends s (⟨parent, waiting⟩ :: calls)) (h : waiting' ⊆ waiting) :
  Descends s (⟨parent, waiting'⟩ :: calls)
  := by
  cases way with
  | root held =>
      apply Descends.root
      intro row hrow
      apply held row (h hrow)
  | deeper way shown group longer held =>
      apply Descends.deeper way shown group longer
      intro row hrow
      apply held row (h hrow)

theorem step (way : Descends s calls) (limits : Sizes) (shown : List Row) :
  Descends s (s.step limits ⟨calls, shown⟩).calls
  := by
  match calls with
  | [] => exact way
  | ⟨parent, []⟩ :: calls => exact way.outer
  | ⟨parent, row :: waiting⟩ :: calls =>
      have back : Descends s (⟨parent, waiting⟩ :: calls) :=
        way.fewer (List.subset_cons_self row waiting)
      rw [Snapshot.step]
      rcases s.callFor_cases limits parent row with
        ⟨key, hkey, longer, hcall, -⟩ | ⟨hcall, -⟩
      · rw [hcall]
        apply Descends.deeper back (way.held row List.mem_cons_self) hkey longer
        intro row' hrow'
        apply List.mem_of_mem_take hrow'
      · rw [hcall]
        apply back

theorem tour (s : Snapshot) (limits : Sizes) (steps : ℕ) :
  Descends s (s.tour limits steps).calls
  := by
  induction steps with
  | zero =>
      apply Descends.root
      intro row hrow
      apply List.mem_of_mem_take hrow
  | succ steps ih =>
      rw [Snapshot.tour, Function.iterate_succ_apply']
      apply ih.step

/-- On the way down keys grow longer. -/
theorem shorter (way : Descends s (call :: calls)) :
  ∀ other ∈ calls, other.parent.length < call.parent.length
  := by
  generalize hcalls : call :: calls = all at way
  induction way generalizing call calls with
  | ended => contradiction
  | root =>
      obtain ⟨-, rfl⟩ := List.cons.inj hcalls
      simp
  | deeper way shown group longer held ih =>
      obtain ⟨rfl, rfl⟩ := List.cons.inj hcalls
      intro other hother
      rcases List.mem_cons.mp hother with rfl | hother
      · apply longer
      · apply Nat.lt_trans (ih rfl other hother) longer

theorem nodup (way : Descends s calls) :
  (calls.map Frame.parent).Nodup
  := by
  induction calls with
  | nil => exact List.nodup_nil
  | cons call calls ih =>
      rw [List.map_cons, List.nodup_cons]
      constructor
      · intro hcall
        obtain ⟨other, hother, hsame⟩ := List.mem_map.mp hcall
        have := way.shorter other hother
        rw [hsame] at this
        apply Nat.lt_irrefl _ this
      · apply ih way.outer

/-- There are no more calls around one than its key is long. -/
theorem length_le (way : Descends s (call :: calls)) :
  calls.length ≤ call.parent.length
  := by
  induction calls generalizing call with
  | nil => apply Nat.zero_le
  | cons outer calls ih =>
      have := ih way.outer
      have := way.shorter outer List.mem_cons_self
      rw [List.length_cons]
      omega

end Descends

theorem length_le_longestParent {s : Snapshot} {parent : Key} (h : s.children parent ≠ []) :
  parent.length ≤ s.longestParent
  := by
  apply List.le_max_of_le' 0 _ (Nat.le_refl _)
  apply List.mem_map.mpr ⟨_, mem_entries_of_children h, rfl⟩

/-- A way down is bounded by the keys that have an entry, and by the groups that rows belong to. -/
theorem Descends.depth_le {s : Snapshot} {calls : List Frame} (way : Descends s calls) :
  calls.length - 1 ≤ s.longestParent + 1 ∧ calls.length - 1 ≤ s.longestKey
  := by
  cases way with
  | ended => simp
  | root => simp
  | @deeper outer calls row key waiting way shown group longer held =>
      have houter := way.length_le
      have hparent := length_le_longestParent (List.ne_nil_of_mem shown)
      have hkey := length_le_longestKey (mem_rows_of_mem_children shown) group
      simp only [List.length_cons]
      omega

/-- On any snapshot and within any bounds, a walk from the root comes to an end.  On the way there
it never goes down more often than the longest key of an entry is long and once more, nor more often
than the longest group key of a row is long, and no open call has the key of another. -/
theorem walk_ends_on_any_snapshot (s : Snapshot) (limits : Sizes) :
  (∃ steps, s.tour limits steps = ⟨[], s.walk limits .root⟩)
    ∧ ∀ steps,
      (s.tour limits steps).depth ≤ s.longestParent + 1
        ∧ (s.tour limits steps).depth ≤ s.longestKey
        ∧ ((s.tour limits steps).calls.map Frame.parent).Nodup
  := by
  constructor
  · obtain ⟨steps, hend⟩ := s.exists_iterate_call limits .root [] []
    use steps
    rw [tour, hend, List.nil_append]
  · intro steps
    have way := Descends.tour s limits steps
    exact ⟨way.depth_le.1, way.depth_le.2, way.nodup⟩

end Snapshot

end Collate
