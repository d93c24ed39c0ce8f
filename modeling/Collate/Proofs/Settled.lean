import Collate.Proofs.Partition

/-!
# Rows that a table may hold

The rows that come out of a partition are settled: no two of them belong to one group, and none
has anything a partition would refuse.  Read back in any order, alone or after a trim, they are
taken as they are, and the partition they make is similar to the one they came from.
-/

namespace Collate

/-- Rows that a partition takes as they are. -/
structure Settled (plan : Plan) (rows : List Row) : Prop where
  slots : ∀ row ∈ rows, plan.slotFault? row = none
  nested : ∀ row ∈ rows, ∀ key, row.key = .group key →
    key ≠ .root ∧ key.length ≤ plan.groupLevels
  distinct : (rows.filterMap (·.key.key?)).Nodup

theorem settled_nil (plan : Plan) :
  Settled plan []
  := by
  constructor <;> simp

/-- Fewer rows in another order are settled as well. -/
theorem Settled.of_subperm {plan : Plan} {rows rows' : List Row} (settled : Settled plan rows)
    (h : rows'.Subperm rows) :
  Settled plan rows'
  := by
  constructor
  case slots =>
    intro row hrow
    apply settled.slots row (h.subset hrow)
  case nested =>
    intro row hrow
    apply settled.nested row (h.subset hrow)
  case distinct =>
    obtain ⟨l, hl, hsub⟩ := h
    apply (hl.filterMap _).nodup_iff.mp
    apply settled.distinct.sublist (hsub.filterMap _)

theorem Row.settled_eq_self {row : Row} (h : row.key ≠ .group .root) :
  row.settled = row
  := by
  rw [settled, if_neg h]

namespace Partition

theorem Sound.settled {p : Partition} (sound : p.Sound) :
  Settled p.plan (p.details.map (·.2) ++ p.groups.map (·.2))
  := by
  constructor
  case slots => apply sound.slots
  case nested =>
    intro row hrow key hkey
    obtain hrow | hrow := List.mem_append.mp hrow
    · have := sound.isDetail hrow
      rw [hkey] at this
      contradiction
    · obtain ⟨entry, hentry, rfl⟩ := List.mem_map.mp hrow
      rw [sound.groups entry hentry, RowKey.group.injEq] at hkey
      rw [← hkey]
      apply sound.nested entry hentry
  case distinct =>
    have hdetails : (p.details.map (·.2)).filterMap (·.key.key?) = [] := by
      rw [List.filterMap_eq_nil_iff]
      intro row hrow
      have := sound.isDetail hrow
      cases hkey : row.key with
      | detail => rfl
      | group key =>
          rw [hkey] at this
          contradiction
    have hgroups : (p.groups.map (·.2)).filterMap (·.key.key?) = p.groups.map (·.1) := by
      rw [List.filterMap_map, ← List.filterMap_eq_map]
      apply List.filterMap_congr
      intro entry hentry
      simp [sound.groups entry hentry, RowKey.key?]
    rw [List.filterMap_append, hdetails, hgroups]
    apply sound.distinct

theorem Sound.settled_emit {p : Partition} (sound : p.Sound) :
  Settled p.plan (p.emit.map (·.2))
  := sound.settled.of_subperm sound.perm_emit.subperm

/-! ### Reading settled rows -/

/-- The partition that takes rows as they are. -/
def ofSettled (plan : Plan) (rows : List Row) : Partition :=
  ⟨plan, .ofRows (rows.filter (·.key.isDetail)), rows.filterMap asGroup?⟩

theorem map_fst_filterMap_asGroup? (rows : List Row) :
  (rows.filterMap asGroup?).map (·.1) = rows.filterMap (·.key.key?)
  := by
  rw [List.map_filterMap]
  congr 1
  funext row
  simp [asGroup?, Option.map_map, Function.comp_def]

theorem mem_groups_ofSettled {plan : Plan} {rows : List Row} {entry : Key × Row} :
  entry ∈ (ofSettled plan rows).groups ↔ entry.2 ∈ rows ∧ entry.2.key = .group entry.1
  := by
  obtain ⟨key, row⟩ := entry
  have hasGroup (row' : Row) :
      asGroup? row' = some (key, row) ↔ row' = row ∧ row.key = .group key := by
    cases hkey : row'.key with
    | detail parent =>
        simp only [asGroup?, hkey, RowKey.key?, Option.map_none, reduceCtorEq, false_iff, not_and]
        rintro rfl h
        rw [hkey] at h
        contradiction
    | group key' =>
        simp only [asGroup?, hkey, RowKey.key?, Option.map_some, Option.some.injEq, Prod.mk.injEq]
        constructor
        · rintro ⟨rfl, rfl⟩
          exact ⟨rfl, hkey⟩
        · rintro ⟨rfl, h⟩
          rw [hkey, RowKey.group.injEq] at h
          exact ⟨h, rfl⟩
  simp only [ofSettled, List.mem_filterMap, hasGroup]
  constructor
  · rintro ⟨row', hmem, rfl, hkey⟩
    exact ⟨hmem, hkey⟩
  · rintro ⟨hmem, hkey⟩
    exact ⟨row, hmem, rfl, hkey⟩

theorem collect_ofSettled {plan : Plan} {rows : List Row} {row : Row}
    (settled : Settled plan (rows ++ [row])) :
  (ofSettled plan rows).collect row.key row = (ofSettled plan (rows ++ [row]), none)
  := by
  have hlast : row ∈ rows ++ [row] := by simp
  have hslots : (ofSettled plan rows).plan.slotFault? row = none := settled.slots row hlast
  have hroot : row.key ≠ .group .root := by
    intro h
    apply (settled.nested row hlast _ h).1 rfl
  cases hkey : row.key with
  | detail parent =>
      have hsettled : row.settled.key = .detail parent := by
        rw [Row.settled_eq_self hroot, hkey]
      rw [← hkey, collect_detail hslots hsettled, Row.settled_eq_self hroot]
      simp [ofSettled, Payload.ofRows, asGroup?, hkey, RowKey.isDetail, RowKey.key?]
  | group key =>
      obtain ⟨-, hshallow⟩ := settled.nested row hlast key hkey
      have hdeep : ¬ (ofSettled plan rows).plan.groupLevels < key.length :=
        Nat.not_lt.mpr hshallow
      have hfresh : key ∉ (ofSettled plan rows).groups.map (·.1) := by
        have := settled.distinct
        rw [List.filterMap_append, List.nodup_append] at this
        rw [ofSettled, map_fst_filterMap_asGroup?]
        intro hmem
        apply this.2.2 key hmem key _ rfl
        simp [hkey, RowKey.key?]
      have hsettled : row.settled.key = .group key := by
        rw [Row.settled_eq_self hroot, hkey]
      rw [← hkey, collect_group hslots hsettled, if_neg hdeep, combineInto_of_notMem row hfresh]
      simp [ofSettled, asGroup?, hkey, RowKey.isDetail, RowKey.key?]

/-- Settled rows are read without a fault. -/
theorem read_settled {plan : Plan} {rows : List Row} (settled : Settled plan rows) :
  (empty plan).read (.ofRows rows) = (ofSettled plan rows, none)
  := by
  suffices key : ∀ taken, Settled plan (taken ++ rows) →
      (ofSettled plan taken).read (.ofRows rows) = (ofSettled plan (taken ++ rows), none) from
    key [] settled
  clear settled
  induction rows with
  | nil =>
      intro taken _
      rw [List.append_nil]
      rfl
  | cons row rows ih =>
      intro taken settled
      rw [← List.singleton_append, ← List.append_assoc] at settled ⊢
      have hrow : Settled plan (taken ++ [row]) :=
        settled.of_subperm (List.sublist_append_left _ _).subperm
      rw [List.singleton_append, Payload.ofRows, List.map_cons, read, collect_ofSettled hrow]
      apply ih (taken ++ [row]) settled

theorem detailsUnder_ofSettled (plan : Plan) (rows : List Row) (parent : Key) :
  (ofSettled plan rows).detailsUnder parent = (rowsUnder parent rows).filter (·.key.isDetail)
  := by
  simp [ofSettled, detailsUnder, Payload.ofRows, Function.comp_def, rowsUnder,
    List.filter_filter, Bool.and_comm]

theorem groupsUnder_ofSettled (plan : Plan) (rows : List Row) (parent : Key) :
  (ofSettled plan rows).groupsUnder parent = (rowsUnder parent rows).filterMap asGroup?
  := by
  rw [ofSettled, groupsUnder, rowsUnder, List.filter_filterMap, List.filterMap_filter]
  congr 1
  funext row
  cases hkey : row.key with
  | detail => simp [asGroup?, hkey, RowKey.key?]
  | group key =>
      by_cases hp : key.parent = parent
      · simp [asGroup?, hkey, RowKey.key?, RowKey.parent, hp]
      · simp [asGroup?, hkey, RowKey.key?, RowKey.parent, hp]

/-- Settled rows make a partition similar to the one from which they come, beneath every key. -/
theorem similar_ofSettled {p : Partition} (sound : p.Sound) {rows : List Row}
    (h : ∀ parent, Alike p.plan.hasSort (rowsUnder parent rows) (p.under parent)) :
  (ofSettled p.plan rows).Similar p
  := by
  have hdetail : ∀ parent, ∀ row ∈ p.detailsUnder parent, row.key.isDetail = true := by
    intro parent row hrow
    apply sound.isDetail (mem_rowsUnder.mp hrow).1
  have hgroup : ∀ parent, ∀ entry ∈ p.groupsUnder parent, entry.2.key = .group entry.1 := by
    intro parent entry hentry
    apply sound.groups entry (List.mem_filter.mp hentry).1
  constructor
  case plan => rfl
  case details =>
    intro parent
    have hp : (p.under parent).filter (·.key.isDetail) = p.detailsUnder parent := by
      rw [under, List.filter_append, List.filter_eq_self.mpr (hdetail parent),
        List.filter_eq_nil_iff.mpr, List.append_nil]
      intro row hrow
      obtain ⟨entry, hentry, rfl⟩ := List.mem_map.mp hrow
      simp [hgroup parent entry hentry, RowKey.isDetail]
    rw [detailsUnder_ofSettled, ← hp]
    apply (h parent).filter
  case groups =>
    intro parent
    have hp : (p.under parent).filterMap asGroup? = p.groupsUnder parent := by
      rw [under, List.filterMap_append, List.filterMap_eq_nil_iff.mpr, List.nil_append,
        List.filterMap_map]
      · conv => rhs; rw [← List.filterMap_some (l := p.groupsUnder parent)]
        apply List.filterMap_congr
        intro entry hentry
        simp [asGroup?, hgroup parent entry hentry, RowKey.key?]
      · intro row hrow
        have := hdetail parent row hrow
        cases hkey : row.key with
        | detail => simp [asGroup?, hkey, RowKey.key?]
        | group key =>
            rw [hkey] at this
            contradiction
    rw [groupsUnder_ofSettled, ← hp]
    apply (h parent).filterMap

end Partition

end Collate
