import Collate.Proofs.Rereading
import Collate.Proofs.Ungrouped
import Collate.Proofs.Walk

/-!
# Stopping a search early

A table without groups and without an order tells its search to stop once as many rows were merged
as it may show.  If all of them stand at the top, then the table is full, and whatever comes later
changes neither its answer nor what it shows.  But a row beneath a group that the table does not
have counts as well and is not shown, so that the search may be told to stop too early.
-/

namespace Collate

/-- The rows of a payload as a table without groups takes them. -/
def Payload.details (payload : Payload) : List Row :=
  payload.map fun (key, row) =>
    if key = .group .root then { row with key := .detail .root } else row

/-- The rows of a payload of rows are those rows, settled on their parents. -/
theorem Payload.details_ofRows (rows : List Row) :
  (ofRows rows).details = rows.map Row.settled
  := by
  rw [details, ofRows, List.map_map]
  rfl

/-- The rows of two payloads taken together are those of the one and then those of the other. -/
theorem Payload.details_append (payload payload' : Payload) :
  details (payload ++ payload') = payload.details ++ payload'.details
  := List.map_append

/-- Settling a row keeps its parent. -/
theorem Row.parent_settled (row : Row) :
  row.settled.key.parent = row.key.parent
  := by
  rw [settled]
  split
  next h =>
    rw [h]
    rfl
  next => rfl

theorem map_settled_eq_self {rows : List Row} (h : ∀ row ∈ rows, row.key = .detail .root) :
  rows.map Row.settled = rows
  := by
  apply (List.map_congr_left _).trans (List.map_id rows)
  intro row hrow
  apply Row.settled_eq_self
  rw [h row hrow]
  simp

/-- Settling rows keeps which parent they stand beneath. -/
theorem rowsUnder_map_settled (parent : Key) (rows : List Row) :
  rowsUnder parent (rows.map Row.settled) = (rowsUnder parent rows).map Row.settled
  := by
  rw [rowsUnder, List.filter_map, rowsUnder]
  congr 1
  apply List.filter_congr
  intro row _
  rw [Function.comp_apply, Row.parent_settled]

/-- Without a sort, the rows arranged beneath a parent keep the order they came in. -/
theorem Plan.arrange_of_not_hasSort {plan : Plan} (h : plan.hasSort = false) (rows : List Row)
    (parent : Key) :
  plan.arrange rows parent = rowsUnder parent rows
  := by
  apply List.mergeSort_of_pairwise
  apply List.pairwise_of_forall
  apply Plan.mayPrecede_of_not_hasSort h

namespace Partition

/-- Without groups to read into, rows are taken in their order. -/
theorem details_read_of_not_hasGroups {p p' : Partition} {payload : Payload}
    (h : p.read payload = (p', none)) (ungrouped : p.plan.hasGroups = false) :
  p'.details.map (·.2) = p.details.map (·.2) ++ payload.details ∧ p'.groups = p.groups
  := by
  suffices key : p'.plan = p.plan ∧ p'.details.map (·.2) = p.details.map (·.2) ++ payload.details
      ∧ p'.groups = p.groups from key.2
  apply read_induction_payload (P := fun q seen => q.plan = p.plan
    ∧ q.details.map (·.2) = p.details.map (·.2) ++ seen.details ∧ q.groups = p.groups) h
  · exact ⟨rfl, (List.append_nil _).symm, rfl⟩
  · rintro q seen ⟨key, row⟩ - ⟨hplan, hdetails, hgroups⟩ hcollect
    rw [plan_collect, Payload.details_append, ← List.append_assoc, ← hdetails]
    use hplan
    obtain ⟨-, ⟨hdetail, hq⟩ | ⟨rfl, hq⟩ | ⟨group, -, hroot, hshallow, -⟩⟩ := collect_taken hcollect
    · have hkey : key ≠ .group .root := by
        rintro rfl
        contradiction
      rw [hq]
      simp [passThrough, Payload.details, hkey, hgroups]
    · rw [hq]
      simp [passThrough, Payload.details, hgroups]
    · rw [hplan, Plan.groupLevels_of_not_hasGroups ungrouped] at hshallow
      absurd hroot
      apply Key.eq_root_of_length hshallow

end Partition

/-! ### What is shown stays -/

/-- What a list shows of its first elements, no more than it may hold, stays when more come behind
them. -/
theorem take_take_append {α : Type} {l shown : List α} {n k : ℕ} (h : l.take n = shown)
    (hlength : shown.length = min n k) (m : List α) :
  ((l ++ m).take k).take n = shown
  := by
  have hle : min n k ≤ l.length := by
    rw [← hlength, ← h, List.length_take]
    omega
  rw [List.take_take, List.take_append_of_le_length hle]
  by_cases hn : n ≤ k
  · rw [Nat.min_eq_left hn, h]
  · rw [← h, List.length_take] at hlength
    rw [← h, List.take_of_length_le (show l.length ≤ min n k by omega),
      List.take_of_length_le (show l.length ≤ n by omega)]

namespace TableResult

variable {component : Component} {limits : Sizes} {s s' : Snapshot}

/-- A bounded component shows nothing of a snapshot but its walk under those bounds. -/
theorem ofSnapshot_congr (bounded : component.maxResults = some limits)
    (h : s.walk limits .root = s'.walk limits .root) :
  ofSnapshot component s = ofSnapshot component s'
  := by
  simp only [ofSnapshot, bounded, Option.getD_some, h]

/-- Without a range, a bounded component shows the whole walk. -/
theorem rows_ofSnapshot (bounded : component.maxResults = some limits)
    (whole : component.range = none) :
  (ofSnapshot component s).rows = (s.walk limits .root).map .ofRow
  := by
  simp only [ofSnapshot, bounded, whole, Option.map_none, Option.getD_none, Option.getD_some]

end TableResult

namespace Table

/-- A table without groups and without an order. -/
structure Plain (t : Table) : Prop where
  coherent : t.Coherent
  sound : t.snapshot.rowsByParent.Sound
  ungrouped : t.plan.hasGroups = false
  unsorted : t.plan.hasSort = false

/-- A payload is refused, or its rows come behind those that are held, as many as there is room
for. -/
theorem Plain.merge_cases {t : Table} (plain : t.Plain) (payload : Payload) :
  (∃ fault, t.merge payload = (t, some fault))
    ∨ (t.merge payload).1.Plain
      ∧ (t.merge payload).1.total = t.total + UInt64.ofNat payload.length
      ∧ (t.merge payload).1.snapshot.rootRows
        = (t.snapshot.rootRows.map Row.settled ++ rowsUnder .root payload.details).take
            (t.storeSize.size 0).toNat
  := by
  have hcoherent := plain.coherent.merge payload
  obtain ⟨fault, hmerge⟩ | ⟨rows, m, publishes⟩ := t.merge_cases payload
  · left
    use fault
    apply plain.coherent.merge_of_fault
    rw [hmerge]
  · right
    obtain ⟨p, hread, rfl⟩ := exists_read_of_reduce publishes.reduced
    obtain ⟨hdetails, hgroups⟩ := Partition.details_read_of_not_hasGroups hread plain.ungrouped
    have hdepth (depth : ℕ) : p.atDepth depth = [] := by
      simp [Partition.atDepth, hgroups, Partition.empty]
    have hemit : p.emit.map (·.2)
        = t.snapshot.rowsByParent.rows.map Row.settled ++ payload.details := by
      rw [Partition.emit, List.map_append, hdetails, plain.coherent.retained, Snapshot.payload,
        Payload.details_append, Payload.details_ofRows, Payload.map_snd_ofRows]
      simp [hdepth, Partition.empty]
    rw [publishes.merged] at hcoherent ⊢
    refine ⟨⟨hcoherent, publishes.published.keeps.sound, plain.ungrouped, plain.unsorted⟩, rfl,
      ?rows⟩
    case rows =>
      change m.children .root = _
      rw [publishes.published.keeps.reached .root, Plan.arrange_of_not_hasSort plain.unsorted,
        hemit, rowsUnder_append, rowsUnder_map_settled, plain.sound.rowsUnder_rows]
      rfl

/-- An ungrouped and unsorted table can stop once its count reaches its top-level limit. -/
theorem canStop_iff {t : Table} {limits : Sizes} (h : t.maxResults = some limits) :
  t.canStop = true
    ↔ t.plan.hasGroups = false ∧ t.plan.hasSort = false
      ∧ limits.size 0 ≤ t.snapshot.total
  := by
  rw [canStop, h]
  cases t.plan.hasGroups <;> cases t.plan.hasSort <;> simp

/-- A table that shows as many rows as it may show or may hold, all of them details at the top. -/
structure ShowsEnough (t : Table) (limits : Sizes) : Prop where
  details : ∀ row ∈ t.snapshot.rootRows.take (limits.size 0).toNat, row.key = .detail .root
  enough : min (limits.size 0).toNat (t.storeSize.size 0).toNat ≤ t.snapshot.rootRows.length

/-- A table that takes no payload any more. -/
def Refuses (t : Table) : Prop :=
  ∃ fault, ∀ payload, t.merge payload = (t, some fault)

/-- Nothing that comes later changes what is shown, unless the table is cleared. -/
def Unmoved (t : Table) (limits : Sizes) : Prop :=
  ∀ later t', Path t later t' → .cleared ∉ later →
    t'.snapshot.walk limits .root = t.snapshot.walk limits .root

/-- A table without groups and without an order that shows all that it ever will. -/
structure Full (t : Table) (limits : Sizes) (shown : List Row) : Prop where
  plain : t.Plain
  rows : t.snapshot.rootRows.take (limits.size 0).toNat = shown
  details : ∀ row ∈ shown, row.key = .detail .root
  length : shown.length = min (limits.size 0).toNat (t.storeSize.size 0).toNat

namespace Full

variable {t t' : Table} {limits : Sizes} {shown : List Row}

/-- Whatever comes behind the rows that a full table shows is not shown. -/
theorem merge (full : t.Full limits shown) (payload : Payload) :
  (t.merge payload).1.Full limits shown
  := by
  obtain ⟨fault, hmerge⟩ | ⟨hplain, htotal, hrows⟩ := full.plain.merge_cases payload
  · rw [hmerge]
    apply full
  · use hplain
    case details => apply full.details
    case length => rw [storeSize_merge, full.length]
    case rows =>
      rw [hrows]
      apply take_take_append _ full.length
      rw [← List.map_take, full.rows]
      apply map_settled_eq_self full.details

/-- A full table stays full, and shows the same rows, through every history without a clear. -/
theorem path (full : t.Full limits shown) {events : List Event} (path : Path t events t')
    (h : .cleared ∉ events) :
  t'.Full limits shown
  := by
  apply path.preserves h full
  case queue =>
    intro t pending gate full
    obtain ⟨⟨⟨hretained, htotal⟩, hsound, hungrouped, hunsorted⟩, hrows, hdetails, hlength⟩ := full
    exact ⟨⟨⟨hretained, htotal⟩, hsound, hungrouped, hunsorted⟩, hrows, hdetails, hlength⟩
  case merge =>
    intro t payload full
    apply full.merge

/-- The rows that a full table shows are its walk. -/
theorem walk (full : t.Full limits shown) :
  t.snapshot.walk limits .root = shown
  := by
  apply Snapshot.walk_root full.rows
  intro row hrow key hkey
  rw [full.details row hrow] at hkey
  contradiction

/-- A full table shows the same for good. -/
theorem unmoved (full : t.Full limits shown) :
  t.Unmoved limits
  := by
  intro later t' path uncleared
  rw [(full.path path uncleared).walk, full.walk]

end Full

namespace Unmoved

variable {t t' : Table} {limits : Sizes}

/-- An unmoved table stays so through every history without a clear. -/
theorem path (unmoved : t.Unmoved limits) {events : List Event} (path : Path t events t')
    (uncleared : .cleared ∉ events) :
  t'.Unmoved limits
  := by
  intro later t'' path' uncleared'
  have hboth : .cleared ∉ events ++ later := by
    rw [List.mem_append, not_or]
    exact ⟨uncleared, uncleared'⟩
  rw [unmoved _ _ (path.append path') hboth, unmoved _ _ path uncleared]

/-- What a table that nothing moves shows of a component stays. -/
theorem ofSnapshot_eq (unmoved : t.Unmoved limits) {events : List Event}
    (path : Path t events t') (uncleared : .cleared ∉ events) {component : Component}
    (bounded : component.maxResults = some limits) :
  TableResult.ofSnapshot component t'.snapshot = TableResult.ofSnapshot component t.snapshot
  := by
  apply TableResult.ofSnapshot_congr bounded
  apply unmoved _ _ path uncleared

end Unmoved

/-! ### The counter of merged rows -/

/-- The rows that were merged, those that wait and those of payloads to come can be counted. -/
def CanCount (t : Table) (payloads : List Payload) : Prop :=
  t.total.toNat + (t.pending ++ payloads).flatten.length < UInt64.size

instance (t : Table) (payloads : List Payload) : Decidable (t.CanCount payloads) :=
  inferInstanceAs (Decidable (_ < _))

/-- Adding to a count that may wrap never gives more than adding without a bound. -/
theorem toNat_add_ofNat_le (total : UInt64) (n : ℕ) :
  (total + UInt64.ofNat n).toNat ≤ total.toNat + n
  := by
  rw [UInt64.toNat_add, UInt64.toNat_ofNat']
  omega

/-- A count with room for what is added does not wrap. -/
theorem toNat_add_ofNat {total : UInt64} {n : ℕ} (h : total.toNat + n < UInt64.size) :
  (total + UInt64.ofNat n).toNat = total.toNat + n
  := by
  rw [UInt64.toNat_add, UInt64.toNat_ofNat']
  rw [UInt64.size] at h
  omega

namespace CanCount

variable {t t' : Table} {payloads payloads' : List Payload}

/-- A table with room for a list of payloads has room for each selection of them. -/
theorem of_sublist (counts : t.CanCount payloads) (h : payloads'.Sublist payloads) :
  t.CanCount payloads'
  := by
  have hlength := (h.append_left t.pending).flatten.length_le
  rw [CanCount] at counts ⊢
  omega

/-- While it can count, the counter of a table goes up. -/
theorem act {event : Event} (counts : t.CanCount (event.arrival?.toList ++ payloads))
    (enabled : t.Enabled event) (uncleared : event ≠ .cleared) :
  t.total ≤ (t.act event).total ∧ (t.act event).CanCount payloads
  := by
  rw [CanCount] at counts
  rw [CanCount, UInt64.le_iff_toNat_le]
  cases event with
  | cleared => contradiction
  | asked busy => exact ⟨le_rfl, counts⟩
  | acquired => exact ⟨le_rfl, counts⟩
  | released => exact ⟨le_rfl, counts⟩
  | arrived payload raised =>
      rw [Table.act]
      split
      · simp only [discard, List.nil_append, Event.arrival?, Option.toList_some,
          List.flatten_append, List.length_append] at counts ⊢
        omega
      · simp only [List.append_assoc]
        exact ⟨le_rfl, counts⟩
  | answered raised =>
      simp only [Event.arrival?, Option.toList_none, List.nil_append, List.flatten_append,
        List.length_append] at counts
      cases raised with
      | true =>
          simp only [Table.act, heed, discard, if_true, List.nil_append]
          omega
      | false =>
          simp only [Table.act, heed, Bool.false_eq_true, if_false, List.flatten_append,
            List.length_append]
          omega
  | skipped =>
      have htail := (List.tail_sublist t.pending).flatten.length_le
      simp only [Table.act, Event.arrival?, Option.toList_none, List.nil_append,
        List.flatten_append, List.length_append] at counts ⊢
      omega
  | merged payload fault =>
      obtain ⟨-, -, hhead, -⟩ := enabled
      obtain ⟨pending, hpending⟩ := List.head?_eq_some_iff.mp hhead
      simp only [Event.arrival?, Option.toList_none, List.nil_append, hpending, List.cons_append,
        List.flatten_cons, List.length_append] at counts
      simp only [Table.act, total_merge, pending_merge, hpending, List.tail_cons]
      split
      · rw [toNat_add_ofNat (by omega)]
        omega
      · have hzero : t.total + UInt64.ofNat 0 = t.total := UInt64.add_zero _
        rw [hzero]
        omega

/-- With room for what arrives, the count of a table never falls along a history. -/
theorem path {events : List Event} (path : Path t events t') (uncleared : .cleared ∉ events)
    (counts : t.CanCount (arrivals events ++ payloads)) :
  t.total ≤ t'.total ∧ t'.CanCount payloads
  := by
  induction path with
  | nil => exact ⟨UInt64.le_refl _, counts⟩
  | @cons t t' event events enabled _ ih =>
      rw [List.mem_cons, not_or] at uncleared
      have hcounts : t.CanCount (event.arrival?.toList ++ (arrivals events ++ payloads)) := by
        rw [← List.append_assoc]
        convert counts using 2
        rw [arrivals, arrivals, List.filterMap_cons]
        cases event.arrival? <;> rfl
      obtain ⟨hle, hact⟩ := hcounts.act enabled (Ne.symm uncleared.1)
      obtain ⟨hle', hrest⟩ := ih uncleared.2 hact
      exact ⟨UInt64.le_trans hle hle', hrest⟩

end CanCount

/-! ### Rows that may still come -/

/-- Whatever happens to a table that was not cleared, a payload may be the next that is merged.
What waits at the table may be dropped, and the gate may be taken unless someone holds it. -/
theorem exists_path_merge {t : Table} (uncleared : t.cleared = false) (payload : Payload) :
  ∃ later, .cleared ∉ later ∧ Path t later ((t.merge payload).1.withQueue [] ⟨true⟩)
  := by
  let ready := t.withQueue [payload] ⟨true⟩
  have arrived :
      Path t [.answered true, .arrived payload false] (t.withQueue [payload] t.gate) := by
    have hact : (t.act (.answered true)).act (.arrived payload false)
        = t.withQueue [payload] t.gate := by
      simp [act, heed, discard, uncleared, withQueue]
    rw [← hact]
    exact .cons trivial (.cons trivial (.nil _))
  have merged : Path ready [.merged payload (t.merge payload).2]
      ((t.merge payload).1.withQueue [] ⟨true⟩) := by
    have hmerge : (t.withQueue [] ⟨true⟩).merge payload
        = ((t.merge payload).1.withQueue [] ⟨true⟩, (t.merge payload).2) := merge_withQueue _ _ _ _
    have hact : ready.act (.merged payload (t.merge payload).2)
        = (t.merge payload).1.withQueue [] ⟨true⟩ := congrArg (·.1) hmerge
    rw [← hact]
    apply Path.single
    exact ⟨rfl, uncleared, rfl, congrArg (·.2) hmerge⟩
  cases hgate : t.gate.held with
  | true =>
      have hready : t.withQueue [payload] t.gate = ready := by
        have : t.gate = ⟨true⟩ := by rw [← hgate]
        rw [this]
      rw [hready] at arrived
      refine ⟨_, ?_, arrived.append merged⟩
      simp
  | false =>
      have acquired : Path (t.withQueue [payload] t.gate) [.acquired] ready := Path.single hgate
      refine ⟨_, ?_, (arrived.append acquired).append merged⟩
      simp

section

variable {t : Table} {limits : Sizes}

/-- A detail among the root rows of a plain table belongs to no group. -/
theorem Plain.key_of_isDetail (plain : t.Plain) {row : Row} (h : row ∈ t.snapshot.rootRows)
    (detail : row.key.isDetail = true) :
  row.key = .detail .root
  := by
  have hparent := plain.sound.parent_of_mem_children h
  cases hkey : row.key with
  | detail parent =>
      rw [hkey] at hparent
      rw [← hparent]
      rfl
  | group key =>
      rw [hkey] at detail
      contradiction

/-- A table without groups that can read its rows again has none for a group but the root. -/
theorem Plain.key_eq_root (plain : t.Plain) (accepted : (t.merge []).2 = none) {row : Row}
    (h : row ∈ t.snapshot.rootRows) {key : Key} (hkey : row.key = .group key) :
  key = .root
  := by
  rw [plain.coherent.fault_merge, List.append_nil] at accepted
  obtain ⟨hadmits, -⟩ := Partition.accepts_iff.mp accepted
  obtain ⟨-, hshallow⟩ := hadmits row (Snapshot.mem_rows_of_mem_children h)
  apply Key.eq_root_of_length
  rw [← Plan.groupLevels_of_not_hasGroups plain.ungrouped]
  apply hshallow key hkey

/-- A plain table that still accepts payloads shows its first root rows and nothing else. -/
theorem Plain.walk_eq (plain : t.Plain) (accepted : (t.merge []).2 = none) (limits : Sizes) :
  t.snapshot.walk limits .root = t.snapshot.rootRows.take (limits.size 0).toNat
  := by
  apply Snapshot.walk_root rfl
  intro row hrow key hkey
  apply plain.key_eq_root accepted (List.mem_of_mem_take hrow) hkey

/-- If what a table shows stays when no rows are added, then it shows details alone: a row for the
root would be a detail from then on. -/
theorem Plain.details_of_stays (plain : t.Plain) (accepted : (t.merge []).2 = none)
    (cut : t.snapshot.rootRows.length ≤ (t.storeSize.size 0).toNat)
    (stays : ((t.merge []).1.snapshot.walk limits .root).map ShownRow.ofRow
      = (t.snapshot.walk limits .root).map ShownRow.ofRow) :
  ∀ row ∈ t.snapshot.rootRows.take (limits.size 0).toNat, row.key = .detail .root
  := by
  have hrows : (t.merge []).1.snapshot.rootRows = t.snapshot.rootRows.map Row.settled := by
    obtain ⟨fault, hmerge⟩ | ⟨-, -, hrows⟩ := plain.merge_cases []
    · rw [hmerge] at accepted
      contradiction
    · rw [hrows, Payload.details, List.map_nil, rowsUnder, List.filter_nil, List.append_nil]
      apply List.take_of_length_le
      rw [List.length_map]
      apply cut
  have hwalk : (t.merge []).1.snapshot.walk limits .root
      = (t.snapshot.rootRows.take (limits.size 0).toNat).map Row.settled := by
    apply Snapshot.walk_root
    · rw [hrows, List.map_take]
    · intro _ hmem key hkey
      obtain ⟨row, hrow, rfl⟩ := List.mem_map.mp hmem
      obtain ⟨hself, -⟩ := Row.settled_of_group hkey
      rw [hself] at hkey
      apply plain.key_eq_root accepted (List.mem_of_mem_take hrow) hkey
  rw [hwalk, plain.walk_eq accepted, List.map_map, List.map_inj_left] at stays
  intro row hrow
  have hshown := congrArg ShownRow.groupKey (stays row hrow)
  have hmem := List.mem_of_mem_take hrow
  apply plain.key_of_isDetail hmem
  cases hkey : row.key with
  | detail => rfl
  | group key =>
      obtain rfl := plain.key_eq_root accepted hmem hkey
      simp [ShownRow.ofRow, Row.settled, hkey, RowKey.key?] at hshown

/-- A row without values for the top of a table. -/
def blankRow (plan : Plan) : Row :=
  ⟨.detail .root, List.replicate plan.fieldCount none⟩

/-- Where there is room, a further row comes behind those that are held. -/
theorem Plain.rootRows_merge_blankRow (plain : t.Plain) (accepted : (t.merge []).2 = none)
    (details : ∀ row ∈ t.snapshot.rootRows, row.key = .detail .root)
    (room : t.snapshot.rootRows.length < (t.storeSize.size 0).toNat) :
  (t.merge (.ofRows [blankRow t.plan])).1.snapshot.rootRows
    = t.snapshot.rootRows ++ [blankRow t.plan]
  := by
  have htaken : (t.merge (.ofRows [blankRow t.plan])).2 = none := by
    rw [plain.coherent.fault_merge, List.append_nil] at accepted
    rw [plain.coherent.fault_merge]
    rcases hread : (Partition.empty t.plan).read t.snapshot.payload with ⟨p, fault⟩
    rw [hread] at accepted
    obtain rfl : fault = none := accepted
    have hslots : p.plan.slotFault? (blankRow t.plan) = none := by
      rw [Plan.slotFault?_eq_none_iff, blankRow, List.length_replicate,
        Partition.plan_of_read hread]
      rfl
    rw [Partition.read_append_of_none hread]
    simp only [Payload.ofRows, List.map_cons, List.map_nil, Partition.read]
    rw [Partition.collect_detail hslots rfl]
  obtain ⟨fault, hfault⟩ | ⟨-, -, hrows⟩ := plain.merge_cases (.ofRows [blankRow t.plan])
  · rw [hfault] at htaken
    contradiction
  · rw [hrows, map_settled_eq_self details, Payload.details_ofRows]
    apply List.take_of_length_le
    rw [List.length_append]
    apply room

/-- If what a table shows stays when a row is added, then it shows as many as it can. -/
theorem Plain.enough_of_stays (plain : t.Plain) (accepted : (t.merge []).2 = none)
    (details : ∀ row ∈ t.snapshot.rootRows.take (limits.size 0).toNat, row.key = .detail .root)
    (stays : ((t.merge (.ofRows [blankRow t.plan])).1.snapshot.walk limits .root).map ShownRow.ofRow
      = (t.snapshot.walk limits .root).map ShownRow.ofRow) :
  min (limits.size 0).toNat (t.storeSize.size 0).toNat ≤ t.snapshot.rootRows.length
  := by
  by_contra short
  rw [List.take_of_length_le (by omega)] at details
  have hrows := plain.rootRows_merge_blankRow accepted details (by omega)
  have hwalk : (t.merge (.ofRows [blankRow t.plan])).1.snapshot.walk limits .root
      = t.snapshot.rootRows ++ [blankRow t.plan] := by
    apply Snapshot.walk_root
    · rw [hrows]
      apply List.take_of_length_le
      rw [List.length_append, List.length_singleton]
      omega
    · intro row hrow key hkey
      obtain hrow | hrow := List.mem_append.mp hrow
      · rw [details row hrow] at hkey
        contradiction
      · rw [List.mem_singleton.mp hrow] at hkey
        contradiction
  have hlength := congrArg List.length stays
  rw [hwalk, plain.walk_eq accepted, List.length_map, List.length_map, List.length_append,
    List.length_singleton, List.length_take] at hlength
  omega

/-- A table that refuses every payload stays as it is. -/
theorem stays_of_refused {fault : Error} (refused : ∀ payload, t.merge payload = (t, some fault))
    {t' : Table} {events : List Event} (path : Path t events t') (uncleared : .cleared ∉ events) :
  t' = t.withQueue t'.pending t'.gate
  := by
  apply path.preserves (P := fun t' => t' = t.withQueue t'.pending t'.gate) uncleared rfl
  case queue =>
    intro t' pending gate ht'
    rw [ht']
    rfl
  case merge =>
    intro t' payload ht'
    rw [ht', merge_withQueue, refused]
    rfl

end

/-! ### When stopping is right -/

variable {plan : Plan} {maxResults : Option Sizes} {storeSize : Sizes} {events : List Event}
  {t : Table} {limits : Sizes}

/-- Every snapshot that a history reaches is sound. -/
theorem Path.sound (path : Path (ofPlan plan maxResults storeSize) events t) :
  t.snapshot.rowsByParent.Sound
  := by
  apply path.invariant (P := fun t => t.snapshot.rowsByParent.Sound) ChildMap.sound_empty
  case emptied =>
    intro t emptied
    rw [emptied.snapshot]
    apply ChildMap.sound_empty
  case queue =>
    intro t pending gate sound
    apply sound
  case merge =>
    intro t payload _ sound
    obtain ⟨fault, hmerge⟩ | ⟨rows, m, publishes⟩ := t.merge_cases payload
    · rw [hmerge]
      apply sound
    · rw [publishes.merged]
      apply publishes.published.keeps.sound

/-- Every ungrouped and unsorted table that a history reaches is plain. -/
theorem Path.plain (path : Path (ofPlan plan maxResults storeSize) events t)
    (ungrouped : t.plan.hasGroups = false) (unsorted : t.plan.hasSort = false) :
  t.Plain
  := ⟨path.coherent, path.sound, ungrouped, unsorted⟩

/-- No history keeps more root rows than the store size allows. -/
theorem Path.cut (path : Path (ofPlan plan maxResults storeSize) events t) :
  t.snapshot.rootRows.length ≤ (t.storeSize.size 0).toNat
  := by
  rw [path.plan_eq.2]
  apply path.wellFormed.cut .root

/-- A history without a clear leaves the limits of the table as they are. -/
theorem Path.maxResults_eq {start : Table} (path : Path start events t)
    (uncleared : .cleared ∉ events) :
  t.maxResults = start.maxResults
  := path.preserves (P := fun t => t.maxResults = start.maxResults) uncleared rfl
    (fun _ _ _ h => h) fun _ _ h => (maxResults_merge _ _).trans h

/-- A history without a clear neither clears a table nor restores one. -/
theorem Path.cleared_eq {start : Table} (path : Path start events t)
    (uncleared : .cleared ∉ events) :
  t.cleared = start.cleared
  := path.preserves (P := fun t => t.cleared = start.cleared) uncleared rfl
    (fun _ _ _ h => h) fun _ _ h => (cleared_merge _ _).trans h

/-- A reached table that can stop is plain and has counted as many rows as it may show. -/
theorem Path.of_canStop (path : Path (ofPlan plan (some limits) storeSize) events t)
    (uncleared : .cleared ∉ events) (stops : t.canStop = true) :
  t.Plain ∧ limits.size 0 ≤ t.total
  := by
  have hmaxResults : t.maxResults = some limits := path.maxResults_eq uncleared
  obtain ⟨ungrouped, unsorted, htotal⟩ := (canStop_iff hmaxResults).mp stops
  rw [path.coherent.total]
  exact ⟨path.plain ungrouped unsorted, htotal⟩

/-- A table that may stop is full if it shows enough. -/
theorem Path.full (path : Path (ofPlan plan (some limits) storeSize) events t)
    (uncleared : .cleared ∉ events) (stops : t.canStop = true) (shows : t.ShowsEnough limits) :
  t.Full limits (t.snapshot.rootRows.take (limits.size 0).toNat)
  := by
  use (path.of_canStop uncleared stops).1, rfl, shows.details
  have := shows.enough
  have := path.cut
  rw [List.length_take]
  omega

/-- A table to which rows came for its top alone shows all of them, as far as there is room. -/
theorem Path.le_length_rootRows (path : Path (ofPlan plan maxResults storeSize) events t)
    (ungrouped : t.plan.hasGroups = false) (unsorted : t.plan.hasSort = false)
    (top : ∀ payload ∈ arrivals events, ∀ entry ∈ payload, entry.2.key.parent = .root) :
  min t.total.toNat (t.storeSize.size 0).toNat ≤ t.snapshot.rootRows.length
  := by
  suffices key : t.plan.hasGroups = false → t.plan.hasSort = false →
      t.Plain ∧ min t.total.toNat (t.storeSize.size 0).toNat ≤ t.snapshot.rootRows.length from
    (key ungrouped unsorted).2
  apply path.invariant (P := fun t => t.plan.hasGroups = false → t.plan.hasSort = false →
    t.Plain ∧ min t.total.toNat (t.storeSize.size 0).toNat ≤ t.snapshot.rootRows.length)
  case start =>
    intro ungrouped unsorted
    use (Path.nil _).plain ungrouped unsorted
    simp [ofPlan]
  case emptied =>
    intro t emptied ungrouped unsorted
    refine ⟨⟨emptied.coherent, ?sound, ungrouped, unsorted⟩, ?length⟩
    case sound =>
      rw [emptied.snapshot]
      apply ChildMap.sound_empty
    case length =>
      rw [emptied.total]
      apply (Nat.min_le_left ..).trans (Nat.zero_le _)
  case queue =>
    intro t pending gate h ungrouped unsorted
    obtain ⟨⟨⟨hretained, htotal⟩, hsound, -, -⟩, hlength⟩ := h ungrouped unsorted
    exact ⟨⟨⟨hretained, htotal⟩, hsound, ungrouped, unsorted⟩, hlength⟩
  case merge =>
    intro t payload hpayload h ungrouped unsorted
    rw [plan_merge] at ungrouped unsorted
    obtain ⟨plain, hlength⟩ := h ungrouped unsorted
    obtain ⟨fault, hmerge⟩ | ⟨hplain, htotal, hrows⟩ := plain.merge_cases payload
    · rw [hmerge]
      exact ⟨plain, hlength⟩
    · have htop : rowsUnder .root payload.details = payload.details := by
        apply List.filter_eq_self.mpr
        intro row hrow
        obtain ⟨⟨key, row⟩, hentry, rfl⟩ := List.mem_map.mp hrow
        simp only [decide_eq_true_eq]
        split
        · rfl
        · apply top payload hpayload _ hentry
      have hdetails : payload.details.length = payload.length := List.length_map _
      have hcount := toNat_add_ofNat_le t.total payload.length
      use hplain
      rw [hrows, htotal, htop, storeSize_merge, List.length_take, List.length_append,
        List.length_map, hdetails]
      omega

/-- A table that may stop shows enough if all rows that came stand at the top, each queued under its
own key. -/
theorem Path.showsEnough_of_top (path : Path (ofPlan plan (some limits) storeSize) events t)
    (uncleared : .cleared ∉ events) (stops : t.canStop = true)
    (own : ∀ payload ∈ arrivals events, payload.OwnKeyed)
    (top : ∀ payload ∈ arrivals events, ∀ entry ∈ payload, entry.2.key.parent = .root) :
  t.ShowsEnough limits
  := by
  obtain ⟨plain, htotal⟩ := path.of_canStop uncleared stops
  constructor
  case details =>
    intro row hrow
    have hmem := List.mem_of_mem_take hrow
    apply plain.key_of_isDetail hmem
    apply (path.intact own).settled.isDetail plain.ungrouped
    apply Snapshot.mem_rows_of_mem_children hmem
  case enough =>
    have hlength := path.le_length_rootRows plain.ungrouped plain.unsorted top
    rw [UInt64.le_iff_toNat_le] at htotal
    omega

/-- A table that may stop stays so as long as its counter does not overflow. -/
theorem Coherent.canStop_of_path {t' : Table} {later : List Event} (coherent : t.Coherent)
    (stops : t.canStop = true) (path : Path t later t') (uncleared : .cleared ∉ later)
    (counts : t.CanCount (arrivals later)) :
  t'.canStop = true
  := by
  have coherent' : t'.Coherent := path.preserves uncleared coherent
    (fun _ _ _ h => ⟨h.retained, h.total⟩) fun _ payload h => h.merge payload
  cases hmaxResults : t.maxResults with
  | none => simp [canStop, hmaxResults] at stops
  | some limits =>
      obtain ⟨ungrouped, unsorted, htotal⟩ := (canStop_iff hmaxResults).mp stops
      rw [canStop_iff ((path.maxResults_eq uncleared).trans hmaxResults), path.plan_eq.1]
      refine ⟨ungrouped, unsorted, ?_⟩
      rw [← coherent.total] at htotal
      rw [← coherent'.total]
      rw [← List.append_nil (arrivals later)] at counts
      apply UInt64.le_trans htotal (CanCount.path path uncleared counts).1

/-- A table that may stop shows all that it ever will if it takes nothing any more or shows
enough. -/
theorem Path.unmoved (path : Path (ofPlan plan (some limits) storeSize) events t)
    (uncleared : .cleared ∉ events) (stops : t.canStop = true)
    (done : t.Refuses ∨ t.ShowsEnough limits) :
  t.Unmoved limits
  := by
  obtain ⟨fault, refused⟩ | shows := done
  · intro later t' hpath hlater
    rw [stays_of_refused refused hpath hlater]
    rfl
  · apply (path.full uncleared stops shows).unmoved

/-- If nothing that comes later changes what a table shows that may stop, then it takes nothing any
more or shows enough. -/
theorem Path.done_of_stays (path : Path (ofPlan plan (some limits) storeSize) events t)
    (uncleared : .cleared ∉ events) (stops : t.canStop = true) {component : Component}
    (bounded : component.maxResults = some limits) (whole : component.range = none)
    (stays : ∀ later t', Path t later t' → .cleared ∉ later →
      TableResult.ofSnapshot component t'.snapshot = TableResult.ofSnapshot component t.snapshot) :
  t.Refuses ∨ t.ShowsEnough limits
  := by
  have plain := (path.of_canStop uncleared stops).1
  have hstays (payload : Payload) :
      ((t.merge payload).1.snapshot.walk limits .root).map ShownRow.ofRow
        = (t.snapshot.walk limits .root).map ShownRow.ofRow := by
    obtain ⟨later, hlater, hpath⟩ := exists_path_merge (path.cleared_eq uncleared) payload
    have hrows := congrArg TableResult.rows (stays later _ hpath hlater)
    rw [TableResult.rows_ofSnapshot bounded whole,
      TableResult.rows_ofSnapshot bounded whole] at hrows
    apply hrows
  cases accepted : (t.merge []).2 with
  | some fault =>
      left
      use fault
      apply plain.coherent.merge_of_fault_nil accepted
  | none =>
      right
      have details := plain.details_of_stays accepted path.cut (hstays [])
      exact ⟨details, plain.enough_of_stays accepted details (hstays _)⟩

end Table

end Collate
