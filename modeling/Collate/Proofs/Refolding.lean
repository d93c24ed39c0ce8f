import Collate.Proofs.Listing
import Collate.Proofs.StableSort

/-!
# Folding a snapshot again

A merge takes a snapshot apart, details first and then the groups, and sorts and cuts it anew.  It
comes out as it went in.  Among rows that compare equal the details always came first, so that
sorting puts them back where they were, and what has been cut is short enough not to be cut again.
-/

namespace Collate

namespace Snapshot

/-- A snapshot in which among rows that compare equal the details come first. -/
def DetailsFirst (plan : Plan) (s : Snapshot) : Prop :=
  ∀ parent, (s.children parent).Pairwise (Before plan.mayPrecede (·.key.isDetail))

theorem detailsFirst_empty (plan : Plan) :
  empty.DetailsFirst plan
  := fun _ => List.Pairwise.nil

end Snapshot

namespace Partition

/-- What is emitted beneath a key is sorted with the details first. -/
theorem Sound.pairwise_arrange {p : Partition} (sound : p.Sound) (parent : Key) :
  (p.plan.arrange (p.emit.map (·.2)) parent).Pairwise (Before p.plan.mayPrecede (·.key.isDetail))
  := by
  rw [Plan.arrange, sound.rowsUnder_emit, under]
  apply pairwise_mergeSort_append p.plan.mayPrecede_trans p.plan.mayPrecede_total
  · intro row hrow
    apply sound.isDetail (mem_rowsUnder.mp hrow).1
  · intro row hrow
    obtain ⟨entry, hentry, rfl⟩ := List.mem_map.mp hrow
    rw [sound.groups entry (List.mem_filter.mp hentry).1]
    rfl

/-- Rows that are read as they are come out beneath each key as they went in, details first. -/
theorem under_ofSettled (plan : Plan) (rows : List Row) (parent : Key) :
  (ofSettled plan rows).under parent
    = (rowsUnder parent rows).filter (·.key.isDetail)
      ++ (rowsUnder parent rows).filter fun row => !row.key.isDetail
  := by
  rw [under, detailsUnder_ofSettled, groupsUnder_ofSettled]
  congr 1
  rw [List.map_filterMap, ← List.filterMap_eq_filter]
  congr 1
  funext row
  cases hkey : row.key <;> simp [asGroup?, hkey, RowKey.key?, RowKey.isDetail, Option.guard]

end Partition

namespace Table

/-! ### Details come first -/

theorem Intact.detailsFirst_merge {t : Table} (intact : t.Intact)
    (detailsFirst : t.snapshot.DetailsFirst t.plan) (rows : List Row) :
  (t.merge (.ofRows rows)).1.snapshot.DetailsFirst t.plan
  := by
  rcases h : t.held.read (.ofRows rows) with ⟨p, _ | fault⟩
  · obtain ⟨m, hmerge, hkeeps⟩ := intact.merge_of_read h
    have hsound : p.Sound := intact.sound_held.read h
    have hplan : p.plan = t.plan := Partition.plan_of_read h
    rw [hmerge]
    intro parent
    change (m.children parent).Pairwise _
    by_cases hreached : Builder.Reachable t.storeSize (t.plan.arrange (p.emit.map (·.2))) parent
    · rw [hkeeps.reached hreached, ← hplan]
      apply (hsound.pairwise_arrange parent).sublist (List.take_sublist _ _)
    · rw [hkeeps.lost hreached]
      apply List.Pairwise.nil
  · rw [intact.merge_of_fault h]
    apply detailsFirst

variable {plan : Plan} {maxResults : Option Sizes} {storeSize : Sizes} {events : List Event}
  {t : Table}

theorem Path.detailsFirst (path : Path (ofPlan plan maxResults storeSize) events t)
    (own : ∀ payload ∈ arrivals events, payload.OwnKeyed) :
  t.snapshot.DetailsFirst plan
  := by
  suffices key : t.Intact ∧ t.snapshot.DetailsFirst t.plan by
    have := key.2
    rw [path.plan_eq.1] at this
    apply this
  apply path.invariant (P := fun t => t.Intact ∧ t.snapshot.DetailsFirst t.plan)
  case start =>
    use intact_ofPlan plan maxResults storeSize
    apply Snapshot.detailsFirst_empty
  case emptied =>
    intro t emptied
    use emptied.intact
    rw [emptied.snapshot]
    apply Snapshot.detailsFirst_empty
  case queue =>
    rintro t pending gate ⟨intact, detailsFirst⟩
    exact ⟨⟨intact.retained, intact.sound, intact.settled, intact.size, intact.total⟩,
      detailsFirst⟩
  case merge =>
    rintro t payload hpayload ⟨intact, detailsFirst⟩
    rw [(own payload hpayload).eq_ofRows]
    use intact.merge _
    rw [plan_merge]
    apply intact.detailsFirst_merge detailsFirst

/-! ### Folding again -/

/-- A listing of a snapshot is sorted and cut to what it was.  Whatever has children has an entry,
and so a row of its own. -/
theorem children_of_published {s : Snapshot} {rows : List Row} {m : ChildMap}
    (wellFormed : s.WellFormed plan storeSize) (detailsFirst : s.DetailsFirst plan)
    (settled : Settled plan rows) (listed : s.ListedBy rows)
    (published : Published plan storeSize ((Partition.ofSettled plan rows).emit.map (·.2)) m)
    (parent : Key) :
  m.children parent = s.children parent
  := by
  have hsound : (Partition.ofSettled plan rows).Sound :=
    (Partition.sound_empty plan).read (Partition.read_settled settled)
  have harrange : plan.arrange ((Partition.ofSettled plan rows).emit.map (·.2)) = s.children := by
    funext parent
    rw [Plan.arrange, hsound.rowsUnder_emit, Partition.under_ofSettled, listed,
      mergeSort_filter_append_filter plan.mayPrecede_trans plan.mayPrecede_total
        (detailsFirst parent)]
  have hkeeps := published.keeps
  rw [harrange] at hkeeps
  apply hkeeps.children_eq_of_cut
  · intro key
    apply List.take_of_length_le (wellFormed.cut key)
  · intro key hroot hne
    have hentry : key ∈ s.rowsByParent.entries.map (·.1) := by
      rw [ChildMap.mem_map_fst_iff, Option.isSome_iff_ne_none]
      intro hnone
      apply hne
      rw [Snapshot.children, ChildMap.children, hnone]
      rfl
    apply (wellFormed.parents key hentry).resolve_left hroot

theorem Intact.perm_of_listedBy {t : Table} (intact : t.Intact) {rows : List Row}
    (listed : t.snapshot.ListedBy rows) :
  rows.Perm t.snapshot.rowsByParent.rows
  := by
  apply perm_of_rowsUnder
  intro parent
  rw [listed, intact.listedBy]

/-- A listing of a snapshot is folded to what the snapshot was, whether it is retained or comes with
a payload. -/
theorem Path.fold_listing (path : Path (ofPlan plan maxResults storeSize) events t)
    (own : ∀ payload ∈ arrivals events, payload.OwnKeyed) {rows : List Row}
    (listed : t.snapshot.ListedBy rows) {retained payload : Payload}
    (h : retained ++ payload = .ofRows rows) (total : UInt64) :
  ∃ m : ChildMap, fold plan storeSize retained payload total
      = .ok (.ofRows m.rows, ⟨m, m.size, total⟩)
    ∧ m.size = t.snapshot.size
    ∧ ∀ parent, m.children parent = t.snapshot.children parent
  := by
  have intact := path.intact own
  have settled : Settled plan rows := by
    have := intact.settled.of_subperm (intact.perm_of_listedBy listed).subperm
    rw [path.plan_eq.1] at this
    apply this
  have hreduce : reduce plan retained payload = .ok (Partition.ofSettled plan rows).emit := by
    rw [reduce_eq, h, Partition.read_settled settled]
  obtain ⟨m, hfold, published⟩ := fold_of_ok hreduce storeSize total (reduce_ok hreduce).1
  have hchildren := children_of_published path.wellFormed (path.detailsFirst own) settled listed
    published
  refine ⟨m, hfold, ?size, hchildren⟩
  case size =>
    rw [intact.size]
    apply List.Perm.length_eq
    apply perm_of_rowsUnder
    intro parent
    rw [published.keeps.sound.rowsUnder_rows, intact.sound.rowsUnder_rows]
    apply List.Perm.of_eq (hchildren parent)

/-- An empty payload is always merged, and leaves the same rows beneath every key and the same
counts, in whatever order the rows of the snapshot are listed for it.  A fresh table with the same
plan and sizes to which these rows are added shows them as they were shown. -/
theorem refold_eq_self (path : Path (ofPlan plan maxResults storeSize) events t)
    (own : ∀ payload ∈ arrivals events, payload.OwnKeyed) :
  t.Relisted t
    ∧ (∀ t', t.Relisted t' →
      let again := t'.merge []
      again.2 = none
        ∧ (∀ parent, again.1.snapshot.children parent = t.snapshot.children parent)
        ∧ again.1.snapshot.size = t.snapshot.size
        ∧ again.1.snapshot.total = t.snapshot.total
        ∧ (t.Idle → t'.add [] false = again))
    ∧ ∀ rows, t.snapshot.ListedBy rows → ∀ maxResults',
      let again := (ofPlan plan maxResults' storeSize).add (.ofRows rows) false
      again.2 = none
        ∧ (∀ parent, again.1.snapshot.children parent = t.snapshot.children parent)
        ∧ again.1.snapshot.size = t.snapshot.size
  := by
  have intact := path.intact own
  have hplan : t.plan = plan := path.plan_eq.1
  have hstoreSize : t.storeSize = storeSize := path.plan_eq.2
  use intact.relisted, ?again, ?anew
  case again =>
    rintro _ ⟨rows, listed, rfl⟩
    obtain ⟨m, hfold, hsize, hchildren⟩ :=
      path.fold_listing own listed (List.append_nil _) (t.total + UInt64.ofNat 0)
    rw [← hplan, ← hstoreSize] at hfold
    intro again
    have hmerge : again = _ := merge_of_ok (t := { t with retained := .ofRows rows }) hfold
    rw [hmerge]
    use rfl, hchildren, hsize, (UInt64.add_zero _).trans intact.total.symm
    intro idle
    have hidle : { t with retained := .ofRows rows }.Idle :=
      ⟨idle.pending, idle.gate, idle.cleared⟩
    rw [hidle.add_eq]
    apply hmerge
  case anew =>
    intro rows listed maxResults'
    obtain ⟨m, hfold, hsize, hchildren⟩ :=
      path.fold_listing own listed (List.nil_append _)
        (0 + UInt64.ofNat (Payload.ofRows rows).length)
    have hmerge := merge_of_ok (t := ofPlan plan maxResults' storeSize) hfold
    rw [(idle_ofPlan plan maxResults' storeSize).add_eq, hmerge]
    exact ⟨rfl, hchildren, hsize⟩

/-- Details that come after the groups beside which they stand, and a row too many. -/
def tiedRows : List Row :=
  let a : Key := ⟨[.boolean true]⟩
  let b : Key := ⟨[.boolean true, .null]⟩
  [⟨.group a, [some (.count 1)]⟩, ⟨.group b, [none]⟩, ⟨.detail .root, [some (.count 2)]⟩,
    ⟨.detail b, [some (.count 3)]⟩, ⟨.detail b, [some (.count 4)]⟩, ⟨.detail a, [none]⟩]

/-- The rows that are left of them, in another order. -/
def tiedListing : List Row :=
  let a : Key := ⟨[.boolean true]⟩
  let b : Key := ⟨[.boolean true, .null]⟩
  [⟨.detail b, [some (.count 3)]⟩, ⟨.detail a, [none]⟩, ⟨.detail .root, [some (.count 2)]⟩,
    ⟨.group b, [none]⟩, ⟨.group a, [some (.count 1)]⟩]

theorem refold_eq_self_tiedRows :
  let fresh := ofPlan ⟨1, some 1, some 2, []⟩ none ⟨[2, 2, 1]⟩
  let t := (fresh.add (.ofRows tiedRows) false).1
  t.snapshot.size = 5
    ∧ t.snapshot.ListedBy tiedListing
    ∧ (∀ again, again = { t with retained := .ofRows tiedListing }.add [] false
        ∨ again = fresh.add (.ofRows tiedListing) false →
      again.2 = none ∧ ∀ parent, again.1.snapshot.children parent = t.snapshot.children parent)
  := by
  intro fresh t
  let calls : List Call := [.add (.ofRows tiedRows) [] false]
  have path : Path fresh (events (fresh.traceAll calls)) t := path_trace.2.1 fresh calls
  have brought : arrivals (events (fresh.traceAll calls)) = [.ofRows tiedRows] := by
    decide +kernel
  have own : ∀ payload ∈ arrivals (events (fresh.traceAll calls)), payload.OwnKeyed := by
    rw [brought]
    intro payload hpayload
    rw [List.mem_singleton.mp hpayload]
    apply Payload.ownKeyed_ofRows
  have listed : t.snapshot.ListedBy tiedListing := by decide +kernel
  have idle : t.Idle := (idle_ofPlan _ _ _).feed [_]
  obtain ⟨-, hagain, hanew⟩ := refold_eq_self path own
  obtain ⟨hfault, hchildren, -, -, hadd⟩ := hagain _ ⟨tiedListing, listed, rfl⟩
  obtain ⟨hfault', hchildren', -⟩ := hanew tiedListing listed none
  use by decide +kernel, listed
  rintro again (rfl | rfl)
  · rw [hadd idle]
    exact ⟨hfault, hchildren⟩
  · exact ⟨hfault', hchildren'⟩

end Table

end Collate
