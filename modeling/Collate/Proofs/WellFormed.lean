import Collate.Proofs.Refusal
import Mathlib

/-!
# The shape of a snapshot

Every snapshot that a table publishes is well formed: each row stands beneath its parent at its
depth with one slot for each field, whatever has children is the root or a group that is itself
shown, the children of each key are sorted and no more than their depth admits, and the counts add
up.  Where rows are queued under their own keys, no two of them belong to one group.
-/

namespace Collate

/-- A row stands as many levels down as the key of its parent is long. -/
theorem RowKey.depth_eq_length_parent (key : RowKey) :
  key.depth = key.parent.length
  := by
  cases key with
  | group key => simp [depth, parent, Key.parent, Key.length]
  | detail parent => rfl

/-- A payload in which every row is queued under its own key. -/
def Payload.OwnKeyed (payload : Payload) : Prop :=
  ∀ entry ∈ payload, entry.1 = entry.2.key

theorem Payload.ownKeyed_ofRows (rows : List Row) :
  (ofRows rows).OwnKeyed
  := by
  intro entry hentry
  obtain ⟨row, -, rfl⟩ := List.mem_map.mp hentry
  rfl

theorem Payload.OwnKeyed.eq_ofRows {payload : Payload} (own : payload.OwnKeyed) :
  payload = ofRows (payload.map (·.2))
  := by
  rw [ofRows, List.map_map]
  symm
  apply (List.map_congr_left _).trans (List.map_id payload)
  intro entry hentry
  rw [Function.comp_apply, ← own entry hentry]
  rfl

namespace Snapshot

/-- A snapshot as a plan and sizes make it. -/
structure WellFormed (plan : Plan) (sizes : Sizes) (s : Snapshot) : Prop where
  /-- Each parent has one list of children. -/
  distinct : (s.rowsByParent.entries.map (·.1)).Nodup
  /-- Each row stands beneath its parent, with one slot for each field. -/
  rows : ∀ parent, ∀ row ∈ s.children parent,
    row.key.parent = parent ∧ row.key.depth = parent.length
      ∧ row.slots.length = plan.fieldCount
  /-- Each parent is the root or has a row of its own beneath its own parent. -/
  parents : ∀ parent ∈ s.rowsByParent.entries.map (·.1),
    parent = .root ∨ ∃ row ∈ s.children parent.parent, row.key = .group parent
  /-- Children come in the order of the plan. -/
  sorted : ∀ parent, (s.children parent).Pairwise fun a b => plan.mayPrecede a b = true
  /-- No parent has more children than its depth admits. -/
  cut : ∀ parent, (s.children parent).length ≤ (sizes.size parent.length).toNat
  size : s.size = (s.rowsByParent.entries.map fun entry => entry.2.length).sum

/-- A snapshot in which a group has one row at most, no deeper than the plan groups. -/
structure Keyed (plan : Plan) (s : Snapshot) : Prop where
  distinct : (s.rowsByParent.rows.filterMap (·.key.key?)).Nodup
  nested : ∀ row ∈ s.rowsByParent.rows, ∀ key, row.key = .group key →
    key ≠ .root ∧ ∃ deepest, plan.maxGroupDepth = some deepest ∧ key.length ≤ deepest + 1

theorem wellFormed_empty (plan : Plan) (sizes : Sizes) :
  empty.WellFormed plan sizes
  where
  distinct := List.nodup_nil
  rows parent row h := by
    simp [empty, children, ChildMap.children, ChildMap.find?, ChildMap.empty] at h
  parents parent h := by simp [empty, ChildMap.empty] at h
  sorted parent := List.Pairwise.nil
  cut parent := Nat.zero_le _
  size := rfl

end Snapshot

namespace Published

variable {plan : Plan} {sizes : Sizes} {rows : List Row} {m : ChildMap}

theorem children_sublist (published : Published plan sizes rows m) (parent : Key) :
  (m.children parent).Sublist (plan.arrange rows parent)
  := by
  by_cases reached : Builder.Reachable sizes (plan.arrange rows) parent
  · rw [published.keeps.reached reached]
    apply List.take_sublist
  · rw [published.keeps.lost reached]
    apply List.nil_sublist

theorem mem_of_mem_children (published : Published plan sizes rows m) {parent : Key} {row : Row}
    (h : row ∈ m.children parent) :
  row ∈ rows
  := by
  have := (published.children_sublist parent).subset h
  rw [Plan.arrange, List.mem_mergeSort] at this
  apply (mem_rowsUnder.mp this).1

/-- Whatever has children is the root or a group that is shown.  An entry is there only for a key
that is reached, and the way to it ends with its row. -/
theorem exists_row_of_parent (published : Published plan sizes rows m) {parent : Key}
    (h : parent ∈ m.entries.map (·.1)) :
  parent = .root ∨ ∃ row ∈ m.children parent.parent, row.key = .group parent
  := by
  obtain ⟨kept, hkept⟩ := Option.isSome_iff_exists.mp (ChildMap.mem_map_fst_iff.mp h)
  obtain ⟨reached, -⟩ := published.entries.mp hkept
  cases reached with
  | root =>
      left
      rfl
  | @group grandparent _ row reached hkept hown =>
      right
      have hkey : row.key = .group parent := by
        cases hkey : row.key with
        | detail => simp [hkey, RowKey.key?] at hown
        | group key => simpa [hkey, RowKey.key?] using hown
      rw [← published.keeps.reached reached] at hkept
      have hparent := published.keeps.sound.parent_of_mem_children hkept
      rw [hkey] at hparent
      use row
      rw [← hparent] at hkept
      exact ⟨hkept, hkey⟩

theorem size_le (published : Published plan sizes rows m) :
  m.size ≤ rows.length
  := by
  apply (published.keeps.subperm _).length_le
  intro parent
  apply List.mergeSort_perm

/-- A published snapshot is well formed. -/
theorem wellFormed (published : Published plan sizes rows m)
    (slots : ∀ row ∈ rows, plan.slotFault? row = none) (total : UInt64) :
  Snapshot.WellFormed plan sizes ⟨m, m.size, total⟩
  := by
  constructor
  case distinct => apply published.keeps.sound.distinct
  case rows =>
    intro parent row hrow
    have hparent := published.keeps.sound.parent_of_mem_children hrow
    use hparent
    rw [RowKey.depth_eq_length_parent, hparent]
    use rfl
    apply Plan.slotFault?_eq_none_iff.mp
    apply slots row (published.mem_of_mem_children hrow)
  case parents =>
    intro parent hparent
    apply published.exists_row_of_parent hparent
  case sorted =>
    intro parent
    apply List.Pairwise.sublist (published.children_sublist parent)
    apply List.pairwise_mergeSort plan.mayPrecede_trans plan.mayPrecede_total
  case cut =>
    intro parent
    change (m.children parent).length ≤ _
    by_cases reached : Builder.Reachable sizes (plan.arrange rows) parent
    · rw [published.keeps.reached reached]
      apply List.length_take_le
    · rw [published.keeps.lost reached]
      apply Nat.zero_le
  case size =>
    change m.size = _
    rw [ChildMap.size, ChildMap.rows, List.length_flatMap]

end Published

namespace Table

/-- A merge leaves a well formed snapshot. -/
theorem merge_wellFormed {t : Table} (wellFormed : t.snapshot.WellFormed t.plan t.storeSize)
    (payload : Payload) :
  (t.merge payload).1.snapshot.WellFormed t.plan t.storeSize
  := by
  obtain ⟨fault, hmerge⟩ | ⟨rows, m, publishes⟩ := t.merge_cases payload
  · rw [hmerge]
    apply wellFormed
  · rw [publishes.merged]
    apply publishes.published.wellFormed (reduce_ok publishes.reduced).1

/-- A merge adds no more rows to those that are held than the payload has. -/
theorem Coherent.size_merge_le {t : Table} (coherent : t.Coherent)
    (wellFormed : t.snapshot.WellFormed t.plan t.storeSize) (payload : Payload) :
  (t.merge payload).1.snapshot.size
    ≤ t.snapshot.size + if (t.merge payload).2 = none then payload.length else 0
  := by
  obtain ⟨fault, hmerge⟩ | ⟨rows, m, publishes⟩ := t.merge_cases payload
  · simp [hmerge]
  · have hlength := (reduce_ok publishes.reduced).2
    have hretained : t.retained.length = t.snapshot.size := by
      rw [coherent.retained, Snapshot.payload, Payload.ofRows, List.length_map, wellFormed.size,
        ChildMap.rows, List.length_flatMap]
    have hsize := publishes.published.size_le
    rw [publishes.merged, if_pos rfl]
    rw [List.length_map] at hsize
    change m.size ≤ _
    omega

variable {plan : Plan} {maxResults : Option Sizes} {storeSize : Sizes} {events : List Event}
  {t : Table}

theorem Path.wellFormed (path : Path (ofPlan plan maxResults storeSize) events t) :
  t.snapshot.WellFormed plan storeSize
  := by
  have hplan := path.plan_eq
  suffices key : t.snapshot.WellFormed t.plan t.storeSize by
    rw [hplan.1, hplan.2] at key
    apply key
  apply path.invariant (P := fun t => t.snapshot.WellFormed t.plan t.storeSize)
  case start => apply Snapshot.wellFormed_empty
  case emptied =>
    intro t emptied
    rw [emptied.snapshot]
    apply Snapshot.wellFormed_empty
  case queue =>
    intro t pending gate wellFormed
    apply wellFormed
  case merge =>
    intro t payload _ wellFormed
    rw [plan_merge, storeSize_merge]
    apply merge_wellFormed wellFormed

/-! ### How many rows were merged -/

/-- The payloads that were merged without an error. -/
def taken (events : List Event) : List Payload :=
  ((merges events).filter (·.2.isNone)).map (·.1)

/-- The rows of payloads that were fed to a table without an error. -/
def takenOf (payloads : List Payload) (faults : List (Option Error)) : List (RowKey × Row) :=
  (((payloads.zip faults).filter (·.2.isNone)).map (·.1)).flatten

theorem length_takenOf_cons (payload : Payload) (payloads : List Payload) (fault : Option Error)
    (faults : List (Option Error)) :
  (takenOf (payload :: payloads) (fault :: faults)).length
    = (if fault = none then payload.length else 0) + (takenOf payloads faults).length
  := by
  cases fault <;> simp [takenOf]

theorem total_merge (t : Table) (payload : Payload) :
  (t.merge payload).1.total
    = t.total + UInt64.ofNat (if (t.merge payload).2 = none then payload.length else 0)
  := by
  obtain ⟨fault, hmerge⟩ | ⟨rows, m, publishes⟩ := t.merge_cases payload
  · simp [hmerge]
  · simp [publishes.merged]

theorem Idle.total_feed (idle : t.Idle) (payloads : List Payload) :
  (t.feed payloads).1.total
    = t.total + UInt64.ofNat (takenOf payloads (t.feed payloads).2).length
  := by
  induction payloads generalizing t with
  | nil => exact (UInt64.add_zero _).symm
  | cons payload payloads ih =>
      rw [idle.feed_cons, length_takenOf_cons, ih (idle.merge payload), total_merge,
        UInt64.ofNat_add, UInt64.add_assoc]

theorem Idle.size_feed_le (idle : t.Idle) (coherent : t.Coherent)
    (wellFormed : t.snapshot.WellFormed t.plan t.storeSize) (payloads : List Payload) :
  (t.feed payloads).1.snapshot.size
    ≤ t.snapshot.size + (takenOf payloads (t.feed payloads).2).length
  := by
  induction payloads generalizing t with
  | nil => apply Nat.le_add_right
  | cons payload payloads ih =>
      have hwellFormed : (t.merge payload).1.snapshot.WellFormed (t.merge payload).1.plan
          (t.merge payload).1.storeSize := by
        rw [plan_merge, storeSize_merge]
        apply merge_wellFormed wellFormed
      have hmerge := coherent.size_merge_le wellFormed payload
      have hrest := ih (idle.merge payload) (coherent.merge payload) hwellFormed
      rw [idle.feed_cons, length_takenOf_cons]
      change ((t.merge payload).1.feed payloads).1.snapshot.size ≤ _
      omega

/-- The table counts the rows that were merged, and holds no more than these. -/
theorem Path.counts (path : Path (ofPlan plan maxResults storeSize) events t)
    (h : .cleared ∉ events) :
  t.total = UInt64.ofNat (taken events).flatten.length
    ∧ t.snapshot.size ≤ (taken events).flatten.length
  := by
  obtain ⟨heq, hfaults, -⟩ := path.eq_feed h
  have idle := idle_ofPlan plan maxResults storeSize
  have htotal := idle.total_feed ((merges events).map (·.1))
  have hsize := idle.size_feed_le (coherent_ofPlan plan maxResults storeSize)
    (Snapshot.wellFormed_empty _ _) ((merges events).map (·.1))
  have htaken : takenOf ((merges events).map (·.1)) ((merges events).map (·.2))
      = (taken events).flatten := by
    rw [takenOf, ← List.zip_of_prod rfl rfl]
    rfl
  rw [hfaults, htaken] at htotal hsize
  rw [heq]
  constructor
  · apply htotal.trans (UInt64.zero_add _)
  · apply hsize.trans (Nat.zero_add _).le

/-! ### Rows queued under their own keys -/

theorem Emptied.intact (emptied : t.Emptied) :
  t.Intact
  := by
  obtain ⟨-, htotal, hretained, hsnapshot⟩ := emptied
  constructor
  case retained =>
    rw [hretained, hsnapshot]
    rfl
  case sound =>
    rw [hsnapshot]
    apply ChildMap.sound_empty
  case settled =>
    rw [hsnapshot]
    apply settled_nil
  case size =>
    rw [hsnapshot]
    rfl
  case total =>
    rw [hsnapshot, htotal]
    rfl

theorem Path.intact (path : Path (ofPlan plan maxResults storeSize) events t)
    (own : ∀ payload ∈ arrivals events, payload.OwnKeyed) :
  t.Intact
  := by
  apply path.invariant (intact_ofPlan plan maxResults storeSize)
  case emptied =>
    intro t emptied
    apply emptied.intact
  case queue =>
    intro t pending gate intact
    exact ⟨intact.retained, intact.sound, intact.settled, intact.size, intact.total⟩
  case merge =>
    intro t payload hpayload intact
    rw [(own payload hpayload).eq_ofRows]
    apply intact.merge

theorem Intact.keyed (intact : t.Intact) :
  t.snapshot.Keyed t.plan
  := by
  use intact.settled.distinct
  intro row hrow key hkey
  obtain ⟨hroot, hshallow⟩ := intact.settled.nested row hrow key hkey
  use hroot
  rw [Plan.groupLevels] at hshallow
  cases hdeepest : t.plan.maxGroupDepth with
  | none =>
      rw [hdeepest] at hshallow
      have := Key.length_of_parent hroot rfl
      simp only at hshallow
      omega
  | some deepest =>
      rw [hdeepest] at hshallow
      use deepest, rfl, hshallow

/-- At every moment of every run the snapshot is well formed, counts the rows of all payloads that
were merged without an error, as far as the counter goes, and holds no more rows than these, unless
the table was cleared, which leaves it empty.  If all rows were queued under their own keys then no
two rows belong to one group. -/
theorem snapshot_wellFormed (path : Path (ofPlan plan maxResults storeSize) events t) :
  t.snapshot.WellFormed plan storeSize
    ∧ (.cleared ∉ events →
      t.snapshot.total = UInt64.ofNat (taken events).flatten.length
        ∧ t.snapshot.size ≤ (taken events).flatten.length
        ∧ ((taken events).flatten.length < UInt64.size → t.snapshot.size ≤ t.snapshot.total.toNat))
    ∧ (.cleared ∈ events → t.snapshot = .empty)
    ∧ ((∀ payload ∈ arrivals events, payload.OwnKeyed) → t.snapshot.Keyed plan)
  := by
  use path.wellFormed, ?uncleared, ?cleared, ?keyed
  case uncleared =>
    intro h
    obtain ⟨htotal, hsize⟩ := path.counts h
    rw [← path.coherent.total, htotal]
    refine ⟨rfl, hsize, ?_⟩
    intro fits
    rw [UInt64.toNat_ofNat_of_lt' fits]
    apply hsize
  case cleared =>
    intro h
    apply (path.emptied h).snapshot
  case keyed =>
    intro own
    have := (path.intact own).keyed
    rw [path.plan_eq.1] at this
    apply this

/-- A payload of which a row and what stands beneath it are cut away, and one that is refused. -/
def cutThenRefused : List (List Row) :=
  let key (b : Bool) : Key := ⟨[.boolean b]⟩
  [[⟨.group (key true), [some (.count 1)]⟩, ⟨.group (key false), [some (.count 2)]⟩,
      ⟨.detail (key true), [none]⟩, ⟨.detail (key false), [none]⟩, ⟨.group (key true), [none]⟩],
    [⟨.group (key true), [some (.sum ⟨0⟩)]⟩]]

theorem snapshot_wellFormed_cutThenRefused :
  let fresh := ofPlan ⟨1, some 0, some 1, []⟩ none ⟨[1]⟩
  let calls := cutThenRefused.map fun rows =>
    Call.add (.ofRows rows) [.mk [] false, .mk [] false, .mk [] false] false
  let t := (fresh.runAll calls).1
  t.snapshot.WellFormed fresh.plan ⟨[1]⟩ ∧ t.snapshot.total = 5
    ∧ t.snapshot.size ≤ t.snapshot.total.toNat ∧ t.snapshot.Keyed fresh.plan
  := by
  intro fresh calls t
  have path : Path fresh (events (fresh.traceAll calls)) t := path_trace.2.1 fresh calls
  have uncleared : .cleared ∉ events (fresh.traceAll calls) :=
    cleared_notMem_trace.2.1 fresh calls rfl
  have brought : arrivals (events (fresh.traceAll calls)) = cutThenRefused.map .ofRows := by
    decide +kernel
  obtain ⟨hwellFormed, hcounts, -, hkeyed⟩ := snapshot_wellFormed path
  have hlength : (taken (events (fresh.traceAll calls))).flatten.length = 5 := by decide +kernel
  obtain ⟨htotal, -, hsize⟩ := hcounts uncleared
  rw [hlength] at htotal hsize
  refine ⟨hwellFormed, htotal, hsize (by decide), ?keyed⟩
  case keyed =>
    apply hkeyed
    rw [brought]
    intro payload hpayload
    obtain ⟨rows, -, rfl⟩ := List.mem_map.mp hpayload
    apply Payload.ownKeyed_ofRows

end Table

end Collate
