import Collate.Search.Response
import Collate.Proofs.Builder

/-!
# Walking through a snapshot

A walk shows the first children of a key, and behind each group among them that is longer than the
key what a walk from the group shows.  It depends on nothing but the rows that it shows: two walks
are equal if at each key to which they come they show the same children.
-/

namespace Collate

namespace Snapshot

/-- What a walk shows behind a row, as far as it belongs to a group longer than the key beneath
which it stands. -/
def beneath (s : Snapshot) (limits : Sizes) (parent : Key) (row : Row) : List Row :=
  match row.key with
  | .group key => if parent.length < key.length then s.walk limits key else []
  | .detail _ => []

/-- The rows beneath a key, if there are any, are those of its entry. -/
theorem mem_entries_of_children {s : Snapshot} {key : Key} (h : s.children key ≠ []) :
  (key, s.children key) ∈ s.rowsByParent.entries
  := by
  simp only [children, ChildMap.children, ChildMap.find?] at *
  cases found : s.rowsByParent.entries.lookup key with
  | none =>
      rw [found] at h
      contradiction
  | some rows => apply mem_of_lookup found

theorem walk_eq (s : Snapshot) (limits : Sizes) (parent : Key) :
  s.walk limits parent
    = (limits.cut parent.length (s.children parent)).flatMap fun row =>
        row :: s.beneath limits parent row
  := by
  rw [walk]
  apply (List.flatMap_subtype _).trans
  · rw [List.unattach_attach]
  · intro row _
    apply congrArg (row :: ·)
    rw [beneath]
    split
    next key hkey => simp only [hkey, dite_eq_ite]
    next hkey => simp only [hkey]

/-- What is handed on from the groups to which a walk goes down holds of every key. -/
theorem walk_induction (s : Snapshot) (limits : Sizes) {P : Key → Prop}
    (step : ∀ parent, (∀ row ∈ limits.cut parent.length (s.children parent), ∀ key,
      row.key = .group key → parent.length < key.length → P key) → P parent)
    (parent : Key) :
  P parent
  := by
  induction hn : s.longestKey - parent.length using Nat.strongRecOn generalizing parent with
  | ind n ih =>
      apply step
      intro row hrow key hkey hdeeper
      have hheld := mem_rows_of_mem_children (List.mem_of_mem_take hrow)
      have hlength := length_le_longestKey hheld hkey
      apply ih (s.longestKey - key.length) _ key rfl
      omega

/-- Two walks show the same if they come to keys with the same children to be shown. -/
theorem walk_congr {s s' : Snapshot} {limits limits' : Sizes} {P : Key → Prop} {parent : Key}
    (start : P parent)
    (shown : ∀ key, P key →
      limits.cut key.length (s.children key) = limits'.cut key.length (s'.children key))
    (down : ∀ key, P key → ∀ row ∈ limits.cut key.length (s.children key), ∀ group,
      row.key = .group group → key.length < group.length → P group) :
  s.walk limits parent = s'.walk limits' parent
  := by
  induction parent using walk_induction s limits with
  | step parent ih =>
      rw [walk_eq, walk_eq, ← shown parent start]
      apply List.flatMap_congr
      intro row hrow
      apply congrArg (row :: ·)
      rw [beneath, beneath]
      split
      next key hkey =>
        split
        next hdeeper => apply ih row hrow key hkey hdeeper (down parent start row hrow key hkey hdeeper)
        next => rfl
      next => rfl

/-- Where no row that is shown belongs to a group, each is shown by itself. -/
theorem walk_root {s : Snapshot} {limits : Sizes} {shown : List Row}
    (h : s.rootRows.take (limits.size 0).toNat = shown)
    (ungrouped : ∀ row ∈ shown, ∀ key, row.key = .group key → key = .root) :
  s.walk limits .root = shown
  := by
  have hcut : limits.cut (Key.root).length (s.children .root) = shown := h
  have hbeneath : ∀ row ∈ shown, row :: s.beneath limits .root row = [row] := by
    intro row hrow
    apply congrArg (row :: ·)
    rw [beneath]
    split
    next key hkey =>
      rw [ungrouped row hrow key hkey]
      apply if_neg (Nat.lt_irrefl _)
    next => rfl
  rw [walk_eq, hcut, List.flatMap_congr hbeneath, ← List.map_eq_flatMap, List.map_id']

end Snapshot

end Collate
