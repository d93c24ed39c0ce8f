import Collate.Proofs.Acceptance
import Collate.Proofs.Batching

/-!
# Whichever payload comes first

Where no sums are rounded and all values of a group agree, the order in which payloads come makes
no difference: they are accepted in every order or in none, and the snapshots hold the same rows
beneath every key.  For what a table without bounds holds is decided group by group, and there the
order of the rows is of no account.
-/

namespace Collate

/-- Rows of which the order does not matter: none holds a sum, and what those of one group hold as
the value of a field is one value, where it is not null. -/
structure Concordant (rows : List Row) : Prop where
  noSum : ∀ row ∈ rows, ∀ d, some (.sum d) ∉ row.slots
  agree : ∀ key, key ≠ .root → ∀ row ∈ rowsOf key rows, ∀ row' ∈ rowsOf key rows, ∀ field v w,
    row.slot? field = some (.value v) → row'.slot? field = some (.value w) →
    v.isNull = false → w.isNull = false → v = w

theorem Row.mem_slots_of_slot? {row : Row} {field : ℕ} {a : Accumulator}
    (h : row.slot? field = some a) :
  some a ∈ row.slots
  := by
  rw [slot?, Option.join_eq_some_iff] at h
  apply List.mem_of_getElem? h

/-- Rows with one number of slots are told apart by what they hold for some field. -/
theorem Row.slots_eq_of_slot? {row row' : Row} (hlength : row.slots.length = row'.slots.length)
    (h : ∀ field, row.slot? field = row'.slot? field) :
  row.slots = row'.slots
  := by
  apply List.ext_getElem hlength
  intro field hfield hfield'
  simpa [slot?, hfield, hfield'] using h field

theorem Concordant.slots {rows : List Row} (concordant : Concordant rows) {key : Key}
    (hroot : key ≠ .root) (field : ℕ) :
  Slot.Concordant ((rowsOf key rows).map (·.slot? field))
  := by
  constructor
  case noSum =>
    intro d hd
    obtain ⟨row, hrow, hslot⟩ := List.mem_map.mp hd
    apply concordant.noSum row (List.mem_filter.mp hrow).1 d
    apply Row.mem_slots_of_slot? hslot
  case agree =>
    intro v w hv hw
    obtain ⟨row, hrow, hslot⟩ := List.mem_map.mp hv
    obtain ⟨row', hrow', hslot'⟩ := List.mem_map.mp hw
    apply concordant.agree key hroot row hrow row' hrow' field v w hslot hslot'

/-- What the rows of a group come to does not depend on their order. -/
theorem Concordant.gather?_perm {rows rows' : List Row} (concordant : Concordant rows)
    (perm : rows.Perm rows') {key : Key} (hroot : key ≠ .root) (field : ℕ) :
  Slot.gather? ((rowsOf key rows).map (·.slot? field))
    = Slot.gather? ((rowsOf key rows').map (·.slot? field))
  := (concordant.slots hroot field).gather?_perm ((perm.filter _).map _)

namespace Partition

/-- The groups of a partition are those of the rows it has read, each joined field by field. -/
theorem mem_groups_iff_of_read {plan : Plan} {p : Partition} {rows : List Row}
    (h : (empty plan).read (.ofRows rows) = (p, none)) {key : Key} {row : Row} :
  (key, row) ∈ p.groups
    ↔ (∃ row' ∈ rows, row'.settled.key = .group key) ∧ row.key = .group key
      ∧ row.slots.length = plan.fieldCount
      ∧ ∀ field, Slot.gather? ((rowsOf key rows).map (·.slot? field)) = some (row.slot? field)
  := by
  have hsound : p.Sound := (sound_empty plan).read h
  have hplan : p.plan = plan := plan_of_read h
  have hgathers : p.Gathers fun key => rowsOf key rows :=
    (gathers_empty plan).read (sound_empty plan) h
  have hkeys : key ∈ p.groups.map (·.1) ↔ ∃ row' ∈ rows, row'.settled.key = .group key := by
    rw [mem_groups_read h]
    simp [empty]
  have held {row : Row} (hmem : (key, row) ∈ p.groups) : row.key = .group key
      ∧ row.slots.length = plan.fieldCount
      ∧ ∀ field, Slot.gather? ((rowsOf key rows).map (·.slot? field)) = some (row.slot? field) := by
    use hsound.groups _ hmem
    have hslots := hsound.slots row (List.mem_append_right _ (List.mem_map_of_mem hmem))
    rw [hplan, Plan.slotFault?_eq_none_iff] at hslots
    use hslots
    intro field
    apply Slot.gather?_eq_some_iff.mpr (hgathers.joined _ hmem field)
  constructor
  · intro hmem
    exact ⟨hkeys.mp (List.mem_map_of_mem hmem), held hmem⟩
  · rintro ⟨hcame, hkey, hlength, hgather⟩
    obtain ⟨⟨_, row'⟩, hmem, rfl⟩ := List.mem_map.mp (hkeys.mpr hcame)
    obtain ⟨hkey', hlength', hgather'⟩ := held hmem
    have hslots : row'.slots = row.slots := by
      apply Row.slots_eq_of_slot? (hlength'.trans hlength.symm)
      intro field
      rw [← Option.some.injEq, ← hgather', hgather]
    obtain rfl : row' = row := by
      obtain ⟨_, _⟩ := row
      obtain ⟨_, _⟩ := row'
      rw [Row.mk.injEq]
      exact ⟨hkey'.trans hkey.symm, hslots⟩
    apply hmem

theorem nodup_groups {p : Partition} (sound : p.Sound) :
  p.groups.Nodup
  := sound.distinct.of_map

section

variable {plan : Plan} {p p' : Partition} {rows rows' : List Row}
  (concordant : Concordant rows) (perm : rows.Perm rows')
include concordant perm

/-- Rows that are accepted in one order are accepted in every order. -/
theorem accepts_perm (h : ((empty plan).read (.ofRows rows)).2 = none) :
  ((empty plan).read (.ofRows rows')).2 = none
  := by
  obtain ⟨hadmits, hjoinable⟩ := accepts_iff.mp h
  apply accepts_iff.mpr
  constructor
  · intro row hrow
    apply hadmits row (perm.mem_iff.mpr hrow)
  · intro key hroot field
    rw [← concordant.gather?_perm perm hroot]
    apply hjoinable key hroot field

/-- The groups come to the same in every order. -/
theorem groups_perm (h : (empty plan).read (.ofRows rows) = (p, none))
    (h' : (empty plan).read (.ofRows rows') = (p', none)) :
  p.groups.Perm p'.groups
  := by
  have hsound : p.Sound := (sound_empty plan).read h
  have hsound' : p'.Sound := (sound_empty plan).read h'
  rw [List.perm_ext_iff_of_nodup (nodup_groups hsound) (nodup_groups hsound')]
  rintro ⟨key, row⟩
  rw [mem_groups_iff_of_read h, mem_groups_iff_of_read h']
  simp only [perm.mem_iff]
  apply and_congr_right
  rintro ⟨row', -, hkey⟩
  simp only [concordant.gather?_perm perm (Row.settled_of_group hkey).2]

/-- The same rows stand beneath every key, whatever the order in which they were read. -/
theorem under_perm (h : (empty plan).read (.ofRows rows) = (p, none))
    (h' : (empty plan).read (.ofRows rows') = (p', none)) (parent : Key) :
  (p.under parent).Perm (p'.under parent)
  := by
  apply List.Perm.append
  · rw [detailsUnder, detailsUnder, details_read h, details_read h']
    apply List.Perm.filter
    apply List.Perm.append (.refl _)
    apply List.Perm.filter
    apply perm.map
  · apply List.Perm.map
    apply List.Perm.filter
    apply groups_perm concordant perm h h'

end

end Partition

/-- Batches that bring the groups of their rows along do so together. -/
theorem Rooted.flatten {batches : List (List Row)} (rooted : ∀ batch ∈ batches, Rooted batch) :
  Rooted batches.flatten
  := by
  intro row hrow hroot
  obtain ⟨batch, hbatch, hmem⟩ := List.mem_flatten.mp hrow
  obtain ⟨group, hgroup, hkey⟩ := rooted batch hbatch row hmem hroot
  use group, List.mem_flatten.mpr ⟨batch, hbatch, hgroup⟩

namespace Table

/-- Tables that hold the same rows in different orders show the same rows beneath every key. -/
theorem Represents.children_perm {t t' : Table} {rows rows' : List Row} {p p' : Partition}
    (represents : t.Represents rows p) (represents' : t'.Represents rows' p')
    (hplan : t.plan = t'.plan) (concordant : Concordant rows) (perm : rows.Perm rows')
    (parent : Key) :
  (t.snapshot.children parent).Perm (t'.snapshot.children parent)
  := by
  apply (represents.alike parent).1.trans
  apply List.Perm.trans _ (represents'.alike parent).1.symm
  apply Partition.under_perm concordant perm represents.read
  rw [hplan]
  apply represents'.read

/-- What a fresh table without bounds holds when rooted batches have been fed to it. -/
theorem represents_feed (plan : Plan) (maxResults : Option Sizes) {batches : List (List Row)}
    (fits : batches.flatten.length < UInt64.size) (rooted : ∀ batch ∈ batches, Rooted batch) :
  let fed := (ofPlan plan maxResults .unbounded).feed (batches.map .ofRows)
  let read := (Partition.empty plan).read (.ofRows batches.flatten)
  ((∀ fault ∈ fed.2, fault = none) ↔ read.2 = none)
    ∧ (read.2 = none → fed.1.Represents batches.flatten read.1)
  := by
  intro fed read
  have hrooted : ∀ seen, seen <+: batches → Rooted ([] ++ seen.flatten) := by
    intro seen hseen
    apply Rooted.flatten
    intro batch hbatch
    apply rooted batch (hseen.subset hbatch)
  obtain ⟨hfault, hrepresents⟩ := (represents_ofPlan plan maxResults .unbounded).feed
    (idle_ofPlan plan maxResults .unbounded) rfl fits hrooted
  use ?accepted, hrepresents
  case accepted =>
    rw [← hfault, List.findSome?_eq_none_iff]
    rfl

/-- Payloads that bring the groups of their rows along are accepted in every order if they are in
one, and then every order comes to the same rows beneath each key, sorted by the plan. -/
theorem feed_agrees_perm {fields : List Field} {showDetail : Bool} {maxResults : Option Sizes}
    {fresh : Table} {batches batches' : List (List Row)}
    (created : create fields showDetail maxResults .unbounded = .ok fresh)
    (fits : batches.flatten.length < UInt64.size) (rooted : ∀ batch ∈ batches, Rooted batch)
    (concordant : Concordant batches.flatten) (perm : batches.Perm batches')
    (accepted : ∀ fault ∈ (fresh.feed (batches.map .ofRows)).2, fault = none) :
  let one := fresh.feed (batches.map .ofRows)
  let other := fresh.feed (batches'.map .ofRows)
  (∀ fault ∈ other.2, fault = none)
    ∧ one.1.snapshot.size = other.1.snapshot.size
    ∧ one.1.snapshot.total = other.1.snapshot.total
    ∧ ∀ parent,
      (one.1.snapshot.children parent).Perm (other.1.snapshot.children parent)
      ∧ (one.1.snapshot.children parent).Pairwise (fun a b => fresh.plan.mayPrecede a b = true)
      ∧ (other.1.snapshot.children parent).Pairwise fun a b => fresh.plan.mayPrecede a b = true
  := by
  obtain ⟨plan, rfl⟩ := exists_plan_of_create created
  have hflatten : batches.flatten.Perm batches'.flatten := perm.flatten
  have rooted' : ∀ batch ∈ batches', Rooted batch := fun batch hbatch =>
    rooted batch (perm.mem_iff.mpr hbatch)
  have fits' : batches'.flatten.length < UInt64.size := hflatten.length_eq ▸ fits
  intro one other
  obtain ⟨haccepted, hone⟩ := represents_feed plan maxResults fits rooted
  obtain ⟨haccepted', hother⟩ := represents_feed plan maxResults fits' rooted'
  have hread := haccepted.mp accepted
  have hread' := Partition.accepts_perm concordant hflatten hread
  have represents : one.1.Represents batches.flatten _ := hone hread
  have represents' : other.1.Represents batches'.flatten _ := hother hread'
  have hplan : one.1.plan = plan := (idle_ofPlan plan maxResults .unbounded).plan_feed _
  have hplan' : other.1.plan = plan := (idle_ofPlan plan maxResults .unbounded).plan_feed _
  have hsame : one.1.plan = other.1.plan := hplan.trans hplan'.symm
  have hchildren := represents.children_perm represents' hsame concordant hflatten
  use haccepted'.mpr hread', represents.intact.size_eq_of_perm represents'.intact hchildren,
    ?total, ?children
  case total =>
    rw [represents.intact.total, represents'.intact.total, represents.total, represents'.total,
      hflatten.length_eq]
  case children =>
    intro parent
    have hsorted := represents.sorted parent
    have hsorted' := represents'.sorted parent
    rw [hplan] at hsorted
    rw [hplan'] at hsorted'
    exact ⟨hchildren parent, hsorted, hsorted'⟩

/-- The answers of two shards about one group, of which only the second knows a value. -/
def twoShards : List (List Row) :=
  let key : Key := ⟨[.boolean true]⟩
  [[⟨.group key, [some (.count 2), some (.min .null), some (.value .null)]⟩,
      ⟨.detail key, [some (.count 1), none, none]⟩],
    [⟨.detail key, [some (.count 5), none, some (.value (.boolean false))]⟩,
      ⟨.group key, [none, some (.min (.long 7)), some (.value (.boolean true))]⟩,
      ⟨.group key, [some (.count 4), some (.min (.long 3)), some (.value .null)]⟩]]

theorem feed_agrees_perm_twoShards :
  let fresh := ofPlan ⟨3, some 0, some 1, [⟨0, 1, .descending⟩]⟩ none .unbounded
  let one := fresh.feed (twoShards.map .ofRows)
  let other := fresh.feed (twoShards.reverse.map .ofRows)
  (∀ fault ∈ other.2, fault = none)
    ∧ one.1.snapshot.size = other.1.snapshot.size
    ∧ one.1.snapshot.total = other.1.snapshot.total
    ∧ ∀ parent, (one.1.snapshot.children parent).Perm (other.1.snapshot.children parent)
  := by
  intro fresh one other
  have created : create [(Field.named "visits").sortedBy 1 .descending,
      (Field.named "first").groupedAt 0, Field.named "member"] true none .unbounded
        = .ok fresh := rfl
  have concordant : Concordant twoShards.flatten := by
    constructor
    case noSum => simp [twoShards]
    case agree =>
      have hvalue : ∀ key, ∀ row ∈ rowsOf key twoShards.flatten, ∀ field v,
          row.slot? field = some (.value v) → v.isNull = false → v = .boolean true := by
        intro key row hrow field v hslot
        obtain ⟨hrow, hkey⟩ := List.mem_filter.mp hrow
        have hslot := Row.mem_slots_of_slot? hslot
        simp only [twoShards, List.flatten_cons, List.flatten_nil, List.append_nil,
          List.cons_append, List.nil_append, List.mem_cons, List.not_mem_nil, or_false] at hrow
        obtain rfl | rfl | rfl | rfl | rfl := hrow <;> simp_all [Val.isNull]
      intro key _ row hrow row' hrow' field v w hv hw hnull hnull'
      rw [hvalue key row hrow field v hv hnull, hvalue key row' hrow' field w hw hnull']
  have perm : twoShards.Perm twoShards.reverse := twoShards.reverse_perm.symm
  have accepted : ∀ fault ∈ one.2, fault = none := by decide +kernel
  obtain ⟨haccepted, hsize, htotal, hchildren⟩ :=
    feed_agrees_perm created (by decide) (by decide) concordant perm accepted
  use haccepted, hsize, htotal
  intro parent
  apply (hchildren parent).1

end Table

end Collate
