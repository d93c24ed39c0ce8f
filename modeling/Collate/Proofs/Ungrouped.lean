import Collate.Proofs.Feed
import Collate.Proofs.StableSort

/-!
# Tables without groups

All rows of a table without groups stand at the top, and between payloads the table keeps no
more of them than it may show.  Since rows are sorted stably, nothing that was cut away could
have come back: the rows shown are the first ones of all that were ever accepted.
-/

namespace Collate

/-- The rows that a table without groups shows, in the order of their arrival. -/
def topRows (rows : List Row) : List Row :=
  (rows.map Row.settled).filter fun row => row.key = .detail .root

@[simp]
theorem topRows_append (rows rows' : List Row) :
  topRows (rows ++ rows') = topRows rows ++ topRows rows'
  := by
  simp [topRows]

/-- The batches whose producers returned without an error. -/
def accepted (batches : List (List Row)) (faults : List (Option Error)) : List (List Row) :=
  ((batches.zip faults).filter (·.2.isNone)).map (·.1)

theorem Plan.groupLevels_of_not_hasGroups {plan : Plan} (h : plan.hasGroups = false) :
  plan.groupLevels = 0
  := by
  have : plan.maxGroupDepth = none := by simpa [hasGroups] using h
  rw [groupLevels, this]

theorem Key.eq_root_of_length {key : Key} (h : key.length ≤ 0) :
  key = .root
  := by
  by_contra hroot
  rw [length_of_parent hroot rfl] at h
  contradiction

namespace Partition

/-- Without groups to read into, only details are read. -/
theorem Sound.groups_eq_nil {p : Partition} (sound : p.Sound) (h : p.plan.hasGroups = false) :
  p.groups = []
  := by
  rw [List.eq_nil_iff_forall_not_mem]
  intro entry hentry
  obtain ⟨hroot, hshallow⟩ := sound.nested entry hentry
  rw [Plan.groupLevels_of_not_hasGroups h] at hshallow
  apply hroot (Key.eq_root_of_length hshallow)

end Partition

theorem Settled.isDetail {plan : Plan} {rows : List Row} (settled : Settled plan rows)
    (h : plan.hasGroups = false) {row : Row} (hrow : row ∈ rows) :
  row.key.isDetail = true
  := by
  cases hkey : row.key with
  | detail parent => rfl
  | group key =>
      obtain ⟨hroot, hshallow⟩ := settled.nested row hrow key hkey
      rw [Plan.groupLevels_of_not_hasGroups h] at hshallow
      absurd hroot
      apply Key.eq_root_of_length hshallow

namespace Table

/-- A table without groups that shows the first ones of some rows. -/
structure ShowsFirst (t : Table) (rows : List Row) : Prop where
  intact : t.Intact
  ungrouped : t.plan.hasGroups = false
  rootRows : t.snapshot.rootRows
    = ((topRows rows).mergeSort t.plan.mayPrecede).take (t.storeSize.size 0).toNat
  beneath : ∀ parent, parent ≠ .root → t.snapshot.children parent = []
  total : t.total = UInt64.ofNat rows.length

theorem showsFirst_ofPlan {plan : Plan} (h : plan.hasGroups = false) (maxResults : Option Sizes)
    (storeSize : Sizes) :
  (ofPlan plan maxResults storeSize).ShowsFirst []
  where
  intact := intact_ofPlan plan maxResults storeSize
  ungrouped := h
  rootRows := by simp [topRows, ofPlan, Snapshot.rootRows, Snapshot.children, Snapshot.empty,
    ChildMap.children, ChildMap.find?, ChildMap.empty]
  beneath _ _ := rfl
  total := rfl

/-- What is read behind the rows of the snapshot comes to stand behind them. -/
theorem ShowsFirst.detailsUnder_read {t : Table} {rows batch : List Row} {p : Partition}
    (shows : t.ShowsFirst rows) (h : t.held.read (.ofRows batch) = (p, none)) :
  p.detailsUnder .root = t.snapshot.rootRows ++ topRows batch
  := by
  have hheld : t.held.details.map (·.2) = t.snapshot.rowsByParent.rows := by
    have hall : t.snapshot.rowsByParent.rows.filter (·.key.isDetail)
        = t.snapshot.rowsByParent.rows := by
      apply List.filter_eq_self.mpr
      intro row hrow
      apply shows.intact.settled.isDetail shows.ungrouped hrow
    simp [held, Partition.ofSettled, Payload.ofRows, hall, Function.comp_def]
  have hbatch : rowsUnder .root ((batch.map Row.settled).filter (·.key.isDetail))
      = topRows batch := by
    rw [rowsUnder, List.filter_filter, topRows]
    apply List.filter_congr
    intro row _
    rw [Bool.eq_iff_iff, Bool.and_eq_true, decide_eq_true_iff, decide_eq_true_iff]
    cases row.key <;> simp [RowKey.isDetail, RowKey.parent]
  rw [Partition.detailsUnder, Partition.details_read h, rowsUnder_append, hheld, hbatch,
    shows.intact.sound.rowsUnder_rows]
  rfl

/-- An accepted payload adds its rows to those of which the table shows the first ones. -/
theorem ShowsFirst.merge_of_read {t : Table} {rows batch : List Row} {p : Partition}
    (shows : t.ShowsFirst rows) (h : t.held.read (.ofRows batch) = (p, none)) :
  (t.merge (.ofRows batch)).2 = none
    ∧ (t.merge (.ofRows batch)).1.ShowsFirst (rows ++ batch)
  := by
  have hmerged := shows.intact.merge batch
  obtain ⟨m, hmerge, hkeeps⟩ := shows.intact.merge_of_read h
  have hsound : p.Sound := shows.intact.sound_held.read h
  have hplan : p.plan = t.plan := Partition.plan_of_read h
  have hgroups : p.groups = [] := by
    apply hsound.groups_eq_nil
    rw [hplan]
    apply shows.ungrouped
  have harrange (parent : Key) : t.plan.arrange (p.emit.map (·.2)) parent
      = (p.detailsUnder parent).mergeSort t.plan.mayPrecede := by
    rw [Plan.arrange, hsound.rowsUnder_emit, Partition.under, Partition.groupsUnder, hgroups]
    simp
  have hunreached (parent : Key) (hroot : parent ≠ .root) :
      ¬ Builder.Reachable t.storeSize (t.plan.arrange (p.emit.map (·.2))) parent := by
    intro hreached
    cases hreached with
    | root => contradiction
    | @group _ _ row hparent hkept hown =>
        have hmem := List.mem_of_mem_take hkept
        rw [harrange, List.mem_mergeSort] at hmem
        have hdetail := hsound.isDetail (mem_rowsUnder.mp hmem).1
        cases hkey : row.key with
        | detail _ => simp [hkey, RowKey.key?] at hown
        | group _ => simp [hkey, RowKey.isDetail] at hdetail
  rw [hmerge] at hmerged ⊢
  use rfl
  constructor
  case intact => apply hmerged
  case ungrouped => apply shows.ungrouped
  case total => simp [shows.total, UInt64.ofNat_add]
  case beneath =>
    intro parent hroot
    apply hkeeps.lost (hunreached parent hroot)
  case rootRows =>
    calc m.children .root
        = ((p.detailsUnder .root).mergeSort t.plan.mayPrecede).take (t.storeSize.size 0).toNat := by
          rw [hkeeps.reached .root, harrange]
          rfl
      _ = ((topRows rows ++ topRows batch).mergeSort t.plan.mayPrecede).take
            (t.storeSize.size 0).toNat := by
          rw [shows.detailsUnder_read h, shows.rootRows,
            take_mergeSort_take t.plan.mayPrecede_trans t.plan.mayPrecede_total]
      _ = ((topRows (rows ++ batch)).mergeSort t.plan.mayPrecede).take
            (t.storeSize.size 0).toNat := by rw [topRows_append]

/-- Payloads one after the other add the rows of those that are accepted. -/
theorem ShowsFirst.feed {t : Table} {rows : List Row} (shows : t.ShowsFirst rows) (idle : t.Idle)
    (batches : List (List Row)) :
  (t.feed (batches.map .ofRows)).1.ShowsFirst
    (rows ++ (accepted batches (t.feed (batches.map .ofRows)).2).flatten)
  := by
  induction batches generalizing t rows with
  | nil =>
      rw [List.map_nil, accepted, List.zip_nil_left, List.filter_nil, List.map_nil,
        List.flatten_nil, List.append_nil]
      apply shows
  | cons batch batches ih =>
      rw [List.map_cons, idle.feed_cons]
      rcases h : t.held.read (.ofRows batch) with ⟨p, _ | fault⟩
      · obtain ⟨hfault, hshows⟩ := shows.merge_of_read h
        have := ih hshows (idle.merge _)
        simpa [accepted, hfault] using this
      · rw [shows.intact.merge_of_fault h]
        have := ih shows idle
        simpa [accepted] using this

/-- A table without groups shows the first rows, as many as it may hold, of all rows at the top
that were accepted, sorted stably; nothing stands beneath another key, and all rows count. -/
theorem rootRows_feed_ungrouped {plan : Plan} (ungrouped : plan.hasGroups = false)
    (maxResults : Option Sizes) (storeSize : Sizes) (batches : List (List Row)) :
  let fed := (ofPlan plan maxResults storeSize).feed (batches.map .ofRows)
  let rows := (accepted batches fed.2).flatten
  fed.1.snapshot.rootRows
      = ((topRows rows).mergeSort plan.mayPrecede).take (storeSize.size 0).toNat
    ∧ (∀ parent, parent ≠ .root → fed.1.snapshot.children parent = [])
    ∧ fed.1.snapshot.total = UInt64.ofNat rows.length
  := by
  intro fed rows
  have hidle := idle_ofPlan plan maxResults storeSize
  have shows : fed.1.ShowsFirst ([] ++ rows) :=
    (showsFirst_ofPlan ungrouped maxResults storeSize).feed hidle batches
  have hplan : fed.1.plan = plan := hidle.plan_feed _
  have hstoreSize : fed.1.storeSize = storeSize := hidle.storeSize_feed _
  use ?first, shows.beneath
  case first =>
    rw [shows.rootRows, hplan, hstoreSize, List.nil_append]
  case _ =>
    rw [shows.intact.total, shows.total, List.nil_append]

/-- Two payloads, of which the first has a row without a slot. -/
def refusedThenTaken : List (List Row) :=
  [[⟨.detail .root, []⟩],
    [⟨.group .root, [some (.count 3)]⟩, ⟨.detail .root, [some (.count 2)]⟩,
      ⟨.detail .root, [some (.count 1)]⟩]]

theorem rootRows_feed_ungrouped_refusedThenTaken :
  let plan : Plan := ⟨1, none, some 0, [⟨0, 0, .descending⟩]⟩
  let fed := (ofPlan plan none ⟨[2]⟩).feed (refusedThenTaken.map .ofRows)
  fed.1.snapshot.rootRows
      = [⟨.detail .root, [some (.count 3)]⟩, ⟨.detail .root, [some (.count 2)]⟩]
    ∧ fed.1.snapshot.total = 3
  := by
  intro plan fed
  have ungrouped : plan.hasGroups = false := rfl
  have hidle := idle_ofPlan plan none ⟨[2]⟩
  have hfaults : fed.2 = [some (.invalidData (.slotCount 0 1)), none] := by
    change ((ofPlan plan none ⟨[2]⟩).feed [_, _]).2 = _
    rw [hidle.feed_cons, (hidle.merge _).feed_cons]
    rfl
  obtain ⟨hrows, -, htotal⟩ := rootRows_feed_ungrouped ungrouped none ⟨[2]⟩ refusedThenTaken
  change fed.1.snapshot.rootRows = _ at hrows
  rw [hrows, htotal, hfaults]
  constructor
  · rw [List.mergeSort_of_pairwise (by decide)]
    rfl
  · rfl

end Table

end Collate
