import Collate.Proofs.Acceptance
import Collate.Proofs.WellFormed

/-!
# Reading back what was kept

A merge reads the rows of the snapshot anew, each under its own key.  A row that was accepted under
another key may then be refused, and with it every later payload.  That cannot happen as long as
whatever belongs to a group is queued under the key of the group: rows that were accepted once, and
what they were combined to, are accepted again.
-/

namespace Collate

/-- A payload in which what belongs to a group is queued under the key of the group, or under that
of the root. -/
def Payload.Faithful (payload : Payload) : Prop :=
  ∀ entry ∈ payload,
    entry.2.settled.key.isDetail = true ∨ entry.1 = entry.2.key ∨ entry.1 = .group .root

instance (payload : Payload) : Decidable payload.Faithful :=
  inferInstanceAs (Decidable (∀ entry ∈ payload,
    entry.2.settled.key.isDetail = true ∨ entry.1 = entry.2.key ∨ entry.1 = .group .root))

theorem Payload.OwnKeyed.faithful {payload : Payload} (own : payload.OwnKeyed) :
  payload.Faithful
  := fun entry hentry => .inr (.inl (own entry hentry))

theorem Row.key_settled_congr {row row' : Row} (h : row.key = row'.key) :
  row.settled.key = row'.settled.key
  := by
  rw [settled, settled, h]
  split
  · rfl
  · apply h

theorem Row.isDetail_settled {row : Row} (h : row.key.isDetail = true) :
  row.settled.key.isDetail = true
  := by
  rw [settled_eq_self]
  · apply h
  · intro hkey
    rw [hkey] at h
    contradiction

theorem Plan.slotFault?_settled (plan : Plan) (row : Row) :
  plan.slotFault? row.settled = plan.slotFault? row
  := by
  rw [Row.settled]
  split <;> rfl

/-- What is kept of a list is part of what is there at all. -/
theorem filterMap_sublist_map {α β : Type} {f : α → Option β} {g : α → β} {l : List α}
    (h : ∀ x ∈ l, f x = none ∨ f x = some (g x)) :
  (l.filterMap f).Sublist (l.map g)
  := by
  induction l with
  | nil => apply List.Sublist.refl
  | cons x l ih =>
      have ih := ih fun y hy => h y (List.mem_cons_of_mem _ hy)
      obtain hx | hx := h x List.mem_cons_self
      · rw [List.filterMap_cons_none hx]
        apply ih.cons
      · rw [List.filterMap_cons_some hx]
        apply ih.cons_cons

namespace Partition

/-- A partition in which what belongs to a group has been combined under the key of the group. -/
structure Faithful (p : Partition) : Prop where
  details : ∀ entry ∈ p.details, entry.2.settled.key.isDetail = true
  groups : ∀ entry ∈ p.groups,
    entry.2.settled.key.isDetail = true ∨ entry.2.key = .group entry.1
  nested : ∀ entry ∈ p.groups, entry.1 ≠ .root ∧ entry.1.length ≤ p.plan.groupLevels
  distinct : (p.groups.map (·.1)).Nodup
  filled : p.Filled

theorem faithful_empty (plan : Plan) :
  (empty plan).Faithful
  := by
  constructor <;> simp [empty, Filled]

theorem Faithful.passThrough {p : Partition} (faithful : p.Faithful) {row : Row}
    (slots : p.plan.slotFault? row = none) (h : row.settled.key.isDetail = true) (key : RowKey) :
  (p.passThrough key row).Faithful
  where
  groups := faithful.groups
  nested := faithful.nested
  distinct := faithful.distinct
  filled := faithful.filled.passThrough slots key
  details entry hentry := by
    obtain hentry | hentry := List.mem_append.mp hentry
    · apply faithful.details entry hentry
    · obtain rfl := List.mem_singleton.mp hentry
      apply h

theorem Faithful.collect {p : Partition} (faithful : p.Faithful) {key : RowKey} {row : Row}
    (placed : row.settled.key.isDetail = true ∨ key = row.key ∨ key = .group .root)
    (h : (p.collect key row).2 = none) :
  (p.collect key row).1.Faithful
  := by
  have hfilled := faithful.filled.collect h
  obtain ⟨hslots, ⟨hdetail, hp⟩ | ⟨-, hp⟩ | ⟨group, rfl, hroot, hshallow, hp⟩⟩ := collect_taken h
  · rw [hp]
    apply faithful.passThrough hslots
    obtain hrow | rfl | rfl := placed
    · apply hrow
    · apply Row.isDetail_settled hdetail
    · contradiction
  · have hslots' : p.plan.slotFault? { row with key := .detail .root } = none := hslots
    rw [hp]
    apply faithful.passThrough hslots'
    apply Row.isDetail_settled
    rfl
  · rw [hp] at hfilled ⊢
    constructor
    case details => apply faithful.details
    case filled => apply hfilled
    case groups =>
      intro entry hentry
      obtain rfl | ⟨present, hmem, hsame, -⟩ := mem_combineInto hentry
      · obtain hrow | hrow | hrow := placed
        · left
          apply hrow
        · right
          apply hrow.symm
        · absurd hroot
          rw [RowKey.group.injEq] at hrow
          apply hrow
      · rw [hsame, Row.key_settled_congr hsame]
        apply faithful.groups _ hmem
    case nested =>
      intro entry hentry
      obtain rfl | ⟨present, hmem, -⟩ := mem_combineInto hentry
      · exact ⟨hroot, hshallow⟩
      · apply faithful.nested _ hmem
    case distinct =>
      rw [map_fst_combineInto]
      split
      · apply faithful.distinct
      next hfresh =>
        apply List.Nodup.append faithful.distinct (List.nodup_singleton _)
        simpa using hfresh

theorem Faithful.read {p p' : Partition} {payload : Payload} (faithful : p.Faithful)
    (placed : payload.Faithful) (h : p.read payload = (p', none)) :
  p'.Faithful
  := by
  apply read_induction_payload (P := fun p _ => p.Faithful) h faithful
  intro p _ entry hentry faithful hcollect
  apply faithful.collect (placed entry hentry) hcollect

/-- What was combined under the key of its group is settled as soon as rows without a group are
details. -/
theorem Faithful.settled {p : Partition} (faithful : p.Faithful) :
  Settled p.plan ((p.details.map (·.2) ++ p.groups.map (·.2)).map Row.settled)
  := by
  have hgroup {entry : Key × Row} (hentry : entry ∈ p.groups) {key : Key}
      (hkey : entry.2.settled.key = .group key) : key = entry.1 := by
    obtain hdetail | hown := faithful.groups entry hentry
    · rw [hkey] at hdetail
      contradiction
    · rw [(Row.settled_of_group hkey).1, hown, RowKey.group.injEq] at hkey
      apply hkey.symm
  have hdetail {entry : RowKey × Row} (hentry : entry ∈ p.details) :
      entry.2.settled.key.key? = none := by
    have := faithful.details entry hentry
    cases hkey : entry.2.settled.key with
    | detail => rfl
    | group key =>
        rw [hkey] at this
        contradiction
  constructor
  case slots =>
    intro _ hmem
    obtain ⟨row, hrow, rfl⟩ := List.mem_map.mp hmem
    rw [Plan.slotFault?_settled]
    apply faithful.filled row hrow
  case nested =>
    intro _ hmem key hkey
    obtain ⟨row, hrow, rfl⟩ := List.mem_map.mp hmem
    obtain hrow | hrow := List.mem_append.mp hrow
    · obtain ⟨entry, hentry, rfl⟩ := List.mem_map.mp hrow
      have := hdetail hentry
      rw [hkey] at this
      contradiction
    · obtain ⟨entry, hentry, rfl⟩ := List.mem_map.mp hrow
      rw [hgroup hentry hkey]
      apply faithful.nested entry hentry
  case distinct =>
    simp only [List.map_append, List.map_map, List.filterMap_append, List.filterMap_map,
      Function.comp_def]
    rw [List.filterMap_eq_nil_iff.mpr fun entry hentry => hdetail hentry, List.nil_append]
    apply List.Nodup.sublist _ faithful.distinct
    apply filterMap_sublist_map
    intro entry hentry
    cases hkey : entry.2.settled.key with
    | detail parent =>
        left
        rfl
    | group key =>
        right
        rw [← hgroup hentry hkey]
        rfl

/-! ### Reading rows that are settled as they are read -/

theorem collect_settled (p : Partition) (row : Row) :
  p.collect row.settled.key row.settled = p.collect row.key row
  := by
  by_cases hkey : row.key = .group .root
  · have hsettled : row.settled = { row with key := .detail .root } := by
      rw [Row.settled, if_pos hkey]
    rw [hsettled, hkey]
    rfl
  · rw [Row.settled_eq_self hkey]

theorem read_map_settled (p : Partition) (rows : List Row) :
  p.read (.ofRows (rows.map Row.settled)) = p.read (.ofRows rows)
  := by
  induction rows generalizing p with
  | nil => rfl
  | cons row rows ih =>
      simp only [Payload.ofRows, List.map_cons, read, collect_settled]
      split
      · apply ih
      · rfl

end Partition

namespace Table

/-- The rows of the snapshot can be read again. -/
def Rereadable (t : Table) : Prop :=
  Settled t.plan (t.snapshot.rowsByParent.rows.map Row.settled)

theorem Coherent.rereadable_merge {t : Table} (coherent : t.Coherent) (rereadable : t.Rereadable)
    {payload : Payload} (placed : payload.Faithful) :
  (t.merge payload).1.Rereadable
  := by
  obtain ⟨fault, hmerge⟩ | ⟨rows, m, publishes⟩ := t.merge_cases payload
  · rw [hmerge]
    apply rereadable
  · obtain ⟨p, hread, rfl⟩ := exists_read_of_reduce publishes.reduced
    have hplaced : (t.retained ++ payload).Faithful := by
      intro entry hentry
      obtain hentry | hentry := List.mem_append.mp hentry
      · rw [coherent.retained] at hentry
        apply (Payload.ownKeyed_ofRows _).faithful entry hentry
      · apply placed entry hentry
    have hfaithful : p.Faithful := (Partition.faithful_empty t.plan).read hplaced hread
    have hplan : p.plan = t.plan := Partition.plan_of_read hread
    have hkept : m.rows.Subperm (p.details.map (·.2) ++ p.groups.map (·.2)) :=
      (publishes.published.keeps.subperm fun _ => List.mergeSort_perm _ _).trans p.emit_subperm
    rw [publishes.merged]
    change Settled t.plan (m.rows.map Row.settled)
    rw [← hplan]
    obtain ⟨kept, hperm, hsublist⟩ := hkept
    apply hfaithful.settled.of_subperm
    exact ⟨_, hperm.map _, hsublist.map _⟩

variable {plan : Plan} {maxResults : Option Sizes} {storeSize : Sizes} {events : List Event}
  {t : Table}

theorem Path.rereadable (path : Path (ofPlan plan maxResults storeSize) events t)
    (placed : ∀ payload ∈ arrivals events, payload.Faithful) :
  t.Rereadable
  := by
  suffices key : t.Coherent ∧ t.Rereadable from key.2
  apply path.invariant (P := fun t => t.Coherent ∧ t.Rereadable)
  case start => exact ⟨coherent_ofPlan plan maxResults storeSize, settled_nil plan⟩
  case emptied =>
    intro t emptied
    use emptied.coherent
    rw [Rereadable, emptied.snapshot]
    apply settled_nil
  case queue =>
    rintro t pending gate ⟨coherent, rereadable⟩
    exact ⟨⟨coherent.retained, coherent.total⟩, rereadable⟩
  case merge =>
    rintro t payload hpayload ⟨coherent, rereadable⟩
    exact ⟨coherent.merge payload, coherent.rereadable_merge rereadable (placed payload hpayload)⟩

/-- A merge is refused for the first row that is refused when the snapshot and the payload are read
one behind the other. -/
theorem Coherent.fault_merge {t : Table} (coherent : t.Coherent) (payload : Payload) :
  (t.merge payload).2 = ((Partition.empty t.plan).read (t.snapshot.payload ++ payload)).2
  := by
  have hreduce := reduce_eq t.plan t.retained payload
  rw [← coherent.retained]
  rcases hread : (Partition.empty t.plan).read (t.retained ++ payload) with ⟨p, _ | fault⟩
  · rw [hread] at hreduce
    obtain ⟨m, hfold, -⟩ := fold_of_ok hreduce t.storeSize _ (reduce_ok hreduce).1
    rw [merge_of_ok hfold]
  · rw [hread] at hreduce
    rw [merge_of_error (fold_of_error hreduce _ _)]

/-- A table that cannot read back its own rows refuses all payloads for good. -/
theorem Coherent.merge_of_fault_nil {t : Table} (coherent : t.Coherent) {fault : Error}
    (h : (t.merge []).2 = some fault) (payload : Payload) :
  t.merge payload = (t, some fault)
  := by
  apply coherent.merge_of_fault
  rw [coherent.fault_merge, List.append_nil] at h
  rw [coherent.fault_merge]
  rcases hread : (Partition.empty t.plan).read t.snapshot.payload with ⟨p, _ | fault'⟩
  · rw [hread] at h
    contradiction
  · rw [hread] at h
    rw [Partition.read_append_of_fault hread]
    apply h

/-- A table takes an empty payload exactly if each row that it shows is no deeper than the plan
groups and the rows of each group can be joined, and if it does not it refuses all payloads for
good.  It always takes it if what belongs to a group was queued under the key of the group. -/
theorem merge_nil_accepted_iff (path : Path (ofPlan plan maxResults storeSize) events t) :
  ((t.merge []).2 = none
      ↔ (∀ row ∈ t.snapshot.rowsByParent.rows, plan.Admits row)
        ∧ Joinable fun key => rowsOf key t.snapshot.rowsByParent.rows)
    ∧ (∀ fault, (t.merge []).2 = some fault → ∀ payload, t.merge payload = (t, some fault))
    ∧ ((∀ payload ∈ arrivals events, payload.Faithful) →
      (t.merge []).2 = none ∧ (t.Idle → (t.add [] false).2 = none))
  := by
  have coherent := path.coherent
  have hplan := path.plan_eq.1
  have hnil := coherent.fault_merge []
  rw [List.append_nil] at hnil
  use ?accepted, fun _ => coherent.merge_of_fault_nil, ?faithful
  case accepted =>
    rw [hnil, hplan]
    apply Partition.accepts_iff
  case faithful =>
    intro placed
    have haccepted : (t.merge []).2 = none := by
      rw [hnil, Snapshot.payload, ← Partition.read_map_settled,
        Partition.read_settled (path.rereadable placed)]
    use haccepted
    intro idle
    rw [idle.add_eq, haccepted]

/-- Rows queued under keys that are not their own, one of them deeper than the table groups. -/
def misplacedRows : List Payload :=
  let key : Key := ⟨[.boolean true]⟩
  let null : Key := ⟨[.null]⟩
  [[(.group key, ⟨.group key, [some (.count 1)]⟩),
      (.group .root, ⟨.group ⟨[.null, .null]⟩, [none]⟩), (.detail key, ⟨.group .root, [none]⟩)],
    [(.group null, ⟨.detail key, [some (.count 2)]⟩), (.group null, ⟨.group null, [none]⟩),
      (.group key, ⟨.group key, [some (.count 3)]⟩)]]

theorem merge_nil_accepted_iff_misplacedRows :
  let fresh := ofPlan ⟨1, some 0, some 1, []⟩ none .unbounded
  let calls := misplacedRows.map fun payload => Call.add payload [] false
  let t := (fresh.runAll calls).1
  t.snapshot.total = 6 ∧ t.snapshot.size = 4 ∧ (t.add [] false).2 = none
  := by
  intro fresh calls t
  have path : Path fresh (events (fresh.traceAll calls)) t := path_trace.2.1 fresh calls
  have brought : arrivals (events (fresh.traceAll calls)) = misplacedRows := by decide +kernel
  have placed : ∀ payload ∈ arrivals (events (fresh.traceAll calls)), payload.Faithful := by
    rw [brought]
    decide
  have idle : t.Idle := by constructor <;> decide +kernel
  obtain ⟨-, -, hfaithful⟩ := merge_nil_accepted_iff path
  exact ⟨by decide +kernel, by decide +kernel, (hfaithful placed).2 idle⟩

/-- The row of a group, queued as a detail. -/
def strayRow : Payload :=
  [(.detail .root, ⟨.group ⟨[.text "a"]⟩, [some (.value (.long 1))]⟩)]

/-- A row that is accepted as a detail may be too deep for the table when it is read back, and then
no payload is accepted any more. -/
theorem refused_for_good_strayRow :
  let fresh := ofPlan ⟨1, none, some 0, []⟩ none .unbounded
  let t := (fresh.add strayRow false).1
  (fresh.add strayRow false).2 = none
    ∧ ∀ payload, t.add payload false = (t, some (.invalidData (.tooDeep ⟨[.text "a"]⟩)))
  := by
  intro fresh t
  have hidle : fresh.Idle := idle_ofPlan _ _ _
  have hadd : fresh.add strayRow false = fresh.merge strayRow := hidle.add_eq _
  have idle : t.Idle := by
    have := hidle.merge strayRow
    rw [← hadd] at this
    apply this
  have coherent : t.Coherent := by
    have := (coherent_ofPlan ⟨1, none, some 0, []⟩ none .unbounded).merge strayRow
    rw [← hadd] at this
    apply this
  have refused : (t.merge []).2 = some (.invalidData (.tooDeep ⟨[.text "a"]⟩)) := by
    decide +kernel
  use by decide +kernel
  intro payload
  rw [idle.add_eq]
  apply coherent.merge_of_fault_nil refused

end Table

end Collate
