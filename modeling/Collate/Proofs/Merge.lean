import Collate.Table.Basic
import Collate.Proofs.Builder
import Collate.Proofs.Settled

/-!
# Merging one payload

A table whose snapshot holds settled rows reads them back as they are.  A payload is then merged
just as if it were read behind them: it is refused with the error of its first bad row, and
leaves the table as it was, or the rows of the snapshot and of the payload are combined, sorted
and cut together.
-/

namespace Collate

/-- No more rows are kept than there were. -/
theorem Builder.Keeps.subperm {sizes : Sizes} {children : Key → List Row} {m : ChildMap}
    {rows : List Row} (keeps : Keeps sizes children m)
    (h : ∀ parent, (children parent).Perm (rowsUnder parent rows)) :
  m.rows.Subperm rows
  := by
  rw [List.subperm_ext_iff]
  intro row _
  have hcount (l : List Row) : (rowsUnder row.key.parent l).count row = l.count row := by
    rw [rowsUnder, List.count_filter]
    simp
  have hkept : ((m.children row.key.parent).Subperm (children row.key.parent)) := by
    by_cases hreached : Reachable sizes children row.key.parent
    · rw [keeps.reached hreached]
      apply (List.take_sublist _ _).subperm
    · rw [keeps.lost hreached]
      apply List.nil_subperm
  calc m.rows.count row
      = (m.children row.key.parent).count row := by rw [← keeps.sound.rowsUnder_rows, hcount]
    _ ≤ (children row.key.parent).count row := hkept.count_le row
    _ = rows.count row := by rw [(h _).count_eq, hcount]

/-- The rows beneath a key in the order of a plan. -/
def Plan.arrange (plan : Plan) (rows : List Row) (parent : Key) : List Row :=
  (rowsUnder parent rows).mergeSort plan.mayPrecede

/-- What is published of some rows: the children of the keys that are reached, in the order of the
plan and cut to the size of their depth, and an entry for each of these keys that has children. -/
structure Published (plan : Plan) (sizes : Sizes) (rows : List Row) (m : ChildMap) : Prop where
  keeps : Builder.Keeps sizes (plan.arrange rows) m
  entries : ∀ {key kept}, m.find? key = some kept
    ↔ Builder.Reachable sizes (plan.arrange rows) key ∧ plan.arrange rows key ≠ []
      ∧ sizes.cut key.length (plan.arrange rows key) = kept

namespace Table

/-- Rows with one slot for each field are published, sorted and cut. -/
theorem publish_eq {plan : Plan} {rows : Payload} (sizes : Sizes) (total : UInt64)
    (h : ∀ row ∈ rows.map (·.2), plan.slotFault? row = none) :
  ∃ m : ChildMap, publish plan sizes rows total = .ok (.ofRows m.rows, ⟨m, m.size, total⟩)
    ∧ Published plan sizes (rows.map (·.2)) m
  := by
  have hslots : ∀ entry ∈ rows, (Builder.empty plan).plan.slotFault? entry.2 = none := by
    intro entry hentry
    apply h entry.2 (List.mem_map_of_mem hentry)
  have hread := Builder.read_eq hslots
  generalize hb : (⟨_, _, false⟩ : Builder) = b at hread
  have hchildren : b.sort.rowsByParent.children = plan.arrange (rows.map (·.2)) := by
    funext parent
    rw [Builder.children_sort (by rw [← hb]), ← hb, Plan.arrange, ChildMap.children_pushAll]
    rfl
  have hsound : b.sort.rowsByParent.Sound := by
    apply Builder.sound_sort
    rw [← hb]
    apply ChildMap.sound_empty.pushAll
  have hoccupied : b.sort.rowsByParent.Occupied := by
    apply Builder.occupied_sort
    rw [← hb]
    apply ChildMap.occupied_empty.pushAll
  use (b.trim sizes).rowsByParent
  constructor
  · simp only [publish, hread, Builder.create, Builder.sort_trim]
    rfl
  · constructor
    case keeps =>
      rw [← hchildren]
      apply Builder.keeps_visit hsound
    case entries =>
      intro key kept
      rw [← hchildren]
      apply (Builder.find?_visit sizes b.sort.rowsByParent).trans
      simp only [Option.map_eq_some_iff, hoccupied.find?_eq_some_iff]
      apply and_congr_right
      intro _
      constructor
      · rintro ⟨rows, ⟨rfl, hne⟩, hcut⟩
        exact ⟨hne, hcut⟩
      · rintro ⟨hne, hcut⟩
        exact ⟨_, ⟨rfl, hne⟩, hcut⟩

theorem fold_of_error {plan : Plan} {retained payload : Payload} {fault : Error}
    (h : reduce plan retained payload = .error fault) (sizes : Sizes) (total : UInt64) :
  fold plan sizes retained payload total = .error fault
  := by
  simp only [fold, h, bind, Except.bind]

/-- Combined rows with one slot for each field are published. -/
theorem fold_of_ok {plan : Plan} {retained payload rows : Payload}
    (h : reduce plan retained payload = .ok rows) (sizes : Sizes) (total : UInt64)
    (slots : ∀ row ∈ rows.map (·.2), plan.slotFault? row = none) :
  ∃ m : ChildMap, fold plan sizes retained payload total = .ok (.ofRows m.rows, ⟨m, m.size, total⟩)
    ∧ Published plan sizes (rows.map (·.2)) m
  := by
  obtain ⟨m, hpublish, hpublished⟩ := publish_eq sizes total slots
  refine ⟨m, ?_, hpublished⟩
  simp only [fold, h, bind, Except.bind, hpublish]

theorem merge_of_ok {t : Table} {payload retained : Payload} {snapshot : Snapshot}
    (h : fold t.plan t.storeSize t.retained payload (t.total + UInt64.ofNat payload.length)
      = .ok (retained, snapshot)) :
  t.merge payload
    = ({ t with retained, snapshot, total := t.total + UInt64.ofNat payload.length }, none)
  := by
  simp only [merge, h]

theorem merge_of_error {t : Table} {payload : Payload} {fault : Error}
    (h : fold t.plan t.storeSize t.retained payload (t.total + UInt64.ofNat payload.length)
      = .error fault) :
  t.merge payload = ({ t with retained := t.snapshot.payload }, some fault)
  := by
  simp only [merge, h]

/-- A table whose next payload is merged with the rows of its snapshot. -/
structure Intact (t : Table) : Prop where
  retained : t.retained = t.snapshot.payload
  sound : t.snapshot.rowsByParent.Sound
  settled : Settled t.plan t.snapshot.rowsByParent.rows
  size : t.snapshot.size = t.snapshot.rowsByParent.size
  total : t.snapshot.total = t.total

theorem intact_ofPlan (plan : Plan) (maxResults : Option Sizes) (storeSize : Sizes) :
  (ofPlan plan maxResults storeSize).Intact
  where
  retained := rfl
  sound := ChildMap.sound_empty
  settled := settled_nil plan
  size := rfl
  total := rfl

/-- Tables with the same rows beneath every key hold equally many. -/
theorem Intact.size_eq_of_perm {t t' : Table} (intact : t.Intact) (intact' : t'.Intact)
    (h : ∀ parent, (t.snapshot.children parent).Perm (t'.snapshot.children parent)) :
  t.snapshot.size = t'.snapshot.size
  := by
  rw [intact.size, intact'.size]
  apply List.Perm.length_eq
  apply perm_of_rowsUnder
  intro parent
  rw [intact.sound.rowsUnder_rows, intact'.sound.rowsUnder_rows]
  apply h

/-- The partition from which a merge goes on when it has read the rows of the snapshot. -/
def held (t : Table) : Partition :=
  .ofSettled t.plan t.snapshot.rowsByParent.rows

theorem Intact.sound_held {t : Table} (intact : t.Intact) :
  t.held.Sound
  := (Partition.sound_empty t.plan).read (Partition.read_settled intact.settled)

/-- Settled rows are read without a fault. -/
theorem reduce_of_settled {plan : Plan} {rows : List Row} (settled : Settled plan rows)
    (payload : Payload) :
  reduce plan (.ofRows rows) payload
    = match (Partition.ofSettled plan rows).read payload with
      | (_, some fault) => .error fault
      | (p, none) => .ok p.emit
  := by
  rcases h : (Partition.ofSettled plan rows).read payload with ⟨p, _ | fault⟩
  · simp only [reduce, Partition.read_settled settled, h]
  · simp only [reduce, Partition.read_settled settled, h]

/-- What is retained is read without a fault. -/
theorem Intact.reduce_eq {t : Table} (intact : t.Intact) (payload : Payload) :
  reduce t.plan t.retained payload
    = match t.held.read payload with
      | (_, some fault) => .error fault
      | (p, none) => .ok p.emit
  := by
  rw [intact.retained]
  apply reduce_of_settled intact.settled

/-- A refused payload changes nothing. -/
theorem Intact.merge_of_fault {t : Table} {p : Partition} {rows : List Row} {fault : Error}
    (intact : t.Intact) (h : t.held.read (.ofRows rows) = (p, some fault)) :
  t.merge (.ofRows rows) = (t, some fault)
  := by
  have hreduce : reduce t.plan t.retained (.ofRows rows) = .error fault := by
    rw [intact.reduce_eq, h]
  rw [merge_of_error (fold_of_error hreduce _ _), ← intact.retained]

/-- The rows of an accepted payload are combined with those of the snapshot, sorted and cut.  Rows
that were read have their slots, so that building the snapshot refuses none. -/
theorem Intact.merge_of_read {t : Table} {p : Partition} {rows : List Row} (intact : t.Intact)
    (h : t.held.read (.ofRows rows) = (p, none)) :
  ∃ m : ChildMap, t.merge (.ofRows rows)
      = ({ t with
          retained := .ofRows m.rows
          snapshot := ⟨m, m.size, t.total + UInt64.ofNat rows.length⟩
          total := t.total + UInt64.ofNat rows.length }, none)
    ∧ Builder.Keeps t.storeSize (t.plan.arrange (p.emit.map (·.2))) m
  := by
  have hsound : p.Sound := intact.sound_held.read h
  have hplan : p.plan = t.plan := Partition.plan_of_read h
  have hslots : ∀ row ∈ p.emit.map (·.2), t.plan.slotFault? row = none := by
    rw [← hplan]
    apply hsound.settled_emit.slots
  have hreduce : reduce t.plan t.retained (.ofRows rows) = .ok p.emit := by
    rw [intact.reduce_eq, h]
  have hlength : (Payload.ofRows rows).length = rows.length := List.length_map _
  obtain ⟨m, hfold, hpublished⟩ := fold_of_ok hreduce t.storeSize _ hslots
  refine ⟨m, ?merged, hpublished.keeps⟩
  case merged => rw [merge_of_ok hfold, hlength]

/-- A merge leaves a table whose next payload is again merged with the rows of its snapshot. -/
theorem Intact.merge {t : Table} (intact : t.Intact) (rows : List Row) :
  (t.merge (.ofRows rows)).1.Intact
  := by
  rcases h : t.held.read (.ofRows rows) with ⟨p, _ | fault⟩
  · obtain ⟨m, hmerge, hkeeps⟩ := intact.merge_of_read h
    have hsound : p.Sound := intact.sound_held.read h
    have hplan : p.plan = t.plan := Partition.plan_of_read h
    rw [hmerge]
    constructor
    case retained => rfl
    case sound => apply hkeeps.sound
    case size => rfl
    case total => rfl
    case settled =>
      rw [← hplan]
      apply hsound.settled_emit.of_subperm
      apply hkeeps.subperm
      intro parent
      apply List.mergeSort_perm
  · rw [intact.merge_of_fault h]
    apply intact

end Table

end Collate
