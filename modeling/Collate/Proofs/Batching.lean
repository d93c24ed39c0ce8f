import Collate.Proofs.Feed
import Collate.Proofs.StableSort
import Mathlib.Data.List.Infix

/-!
# One batch or many

An unbounded table whose payloads bring the groups of their rows along forgets nothing: what it
holds is what a partition of all rows so far would emit.  It therefore makes no difference how the
rows were divided into payloads, neither to the table nor to the error that comes first.
-/

namespace Collate

/-- Every row stands at the top or beneath a group that has a row of its own. -/
def Rooted (rows : List Row) : Prop :=
  ∀ row ∈ rows, row.key.parent ≠ .root → ∃ group ∈ rows, group.key = .group row.key.parent

instance (rows : List Row) : Decidable (Rooted rows) :=
  inferInstanceAs (Decidable (∀ row ∈ rows, row.key.parent ≠ .root →
    ∃ group ∈ rows, group.key = .group row.key.parent))

/-- Two lists of the same rows in which rows at the same place compare equal. -/
def Plan.SameUpToTies (plan : Plan) (rows rows' : List Row) : Prop :=
  rows.Perm rows' ∧ List.Forall₂ (fun row row' => plan.compare row row' = .eq) rows rows'

/-- Sorted lists of the same rows differ in rows that compare equal only. -/
theorem Plan.sameUpToTies_of_perm {plan : Plan} {rows rows' : List Row} (perm : rows.Perm rows')
    (sorted : rows.Pairwise fun a b => plan.mayPrecede a b = true)
    (sorted' : rows'.Pairwise fun a b => plan.mayPrecede a b = true) :
  plan.SameUpToTies rows rows'
  := by
  use perm
  rw [List.forall₂_iff_get]
  use perm.length_eq
  intro i hi hi'
  apply Plan.compare_eq_of_mayPrecede
  · apply getElem_le_of_perm plan.mayPrecede_trans plan.mayPrecede_total perm sorted sorted'
  · apply getElem_le_of_perm plan.mayPrecede_trans plan.mayPrecede_total perm.symm sorted' sorted

theorem Plan.alike_mergeSort (plan : Plan) (rows : List Row) :
  Alike plan.hasSort (rows.mergeSort plan.mayPrecede) rows
  := by
  use List.mergeSort_perm _ _
  intro hsort
  apply List.mergeSort_of_pairwise
  apply List.pairwise_of_forall
  apply Plan.mayPrecede_of_not_hasSort hsort

namespace Partition

theorem Similar.under {p q : Partition} (similar : p.Similar q) (parent : Key) :
  Alike p.plan.hasSort (p.under parent) (q.under parent)
  := (similar.details parent).append ((similar.groups parent).map _)

theorem length_under_le {plan : Plan} {p : Partition} {rows : List Row}
    (h : (empty plan).read (.ofRows rows) = (p, none)) (parent : Key) :
  (p.under parent).length ≤ rows.length
  := by
  have hrows := length_read_le h
  have hdetails := length_rowsUnder_le parent (p.details.map (·.2))
  have hgroups : (p.groupsUnder parent).length ≤ p.groups.length := List.length_filter_le _ _
  simp only [empty, List.length_nil, List.length_map, under, detailsUnder, List.length_append]
    at hrows hdetails ⊢
  omega

/-- What stands beneath a key comes from a row that stood beneath it. -/
theorem exists_of_mem_under {plan : Plan} {p : Partition} {rows : List Row}
    (h : (empty plan).read (.ofRows rows) = (p, none)) {parent : Key} {row : Row}
    (hrow : row ∈ p.under parent) :
  ∃ row' ∈ rows, row'.settled.key.parent = parent
  := by
  have hsound : p.Sound := (sound_empty plan).read h
  obtain hdetail | hgroup := List.mem_append.mp hrow
  · obtain ⟨hmem, hparent⟩ := mem_rowsUnder.mp hdetail
    rw [details_read h] at hmem
    obtain ⟨row', hrow', rfl⟩ : ∃ row' ∈ rows, row'.settled = row := by
      simpa [empty] using (List.mem_filter.mp hmem).1
    use row'
  · obtain ⟨entry, hentry, rfl⟩ := List.mem_map.mp hgroup
    obtain ⟨hmem, hparent⟩ := List.mem_filter.mp hentry
    obtain hnew | ⟨row', hrow', hkey⟩ := (mem_groups_read h entry.1).mp (List.mem_map_of_mem hmem)
    · simp [empty] at hnew
    · use row', hrow'
      rw [hkey]
      apply of_decide_eq_true hparent

/-- Beneath every key of a partition of rooted rows there stands a row for that key. -/
theorem exists_group_of_rooted {plan : Plan} {p : Partition} {rows : List Row}
    (h : (empty plan).read (.ofRows rows) = (p, none)) (rooted : Rooted rows) {key : Key}
    (hroot : key ≠ .root) (hne : p.under key ≠ []) :
  ∃ row ∈ p.under key.parent, row.key = .group key
  := by
  have hsound : p.Sound := (sound_empty plan).read h
  obtain ⟨row, hrow⟩ := List.exists_mem_of_ne_nil _ hne
  obtain ⟨row', hrow', hparent⟩ := exists_of_mem_under h hrow
  have hself : row'.settled = row' := by
    apply Row.settled_eq_self
    intro hkey
    apply hroot
    rw [← hparent, Row.settled, if_pos hkey]
    rfl
  rw [hself] at hparent
  obtain ⟨group, hgroup, hkey⟩ := rooted row' hrow' (hparent.symm ▸ hroot)
  rw [hparent] at hkey
  have hsettled : group.settled.key = .group key := by
    rw [Row.settled_eq_self, hkey]
    simpa [hkey] using hroot
  obtain ⟨entry, hentry, rfl⟩ := List.mem_map.mp
    ((mem_groups_read h key).mpr (.inr ⟨group, hgroup, hsettled⟩))
  use entry.2
  constructor
  · apply List.mem_append_right
    apply List.mem_map_of_mem
    apply List.mem_filter.mpr
    use hentry
    simp
  · apply hsound.groups entry hentry

end Partition

namespace Table

/-- A table that holds what a partition of some rows would emit. -/
structure Represents (t : Table) (rows : List Row) (p : Partition) : Prop where
  read : (Partition.empty t.plan).read (.ofRows rows) = (p, none)
  intact : t.Intact
  alike : ∀ parent, Alike t.plan.hasSort (t.snapshot.children parent) (p.under parent)
  sorted : ∀ parent,
    (t.snapshot.children parent).Pairwise fun a b => t.plan.mayPrecede a b = true
  total : t.total = UInt64.ofNat rows.length

theorem represents_ofPlan (plan : Plan) (maxResults : Option Sizes) (storeSize : Sizes) :
  (ofPlan plan maxResults storeSize).Represents [] (.empty plan)
  where
  read := rfl
  intact := intact_ofPlan plan maxResults storeSize
  alike _ := .refl _ _
  sorted _ := List.Pairwise.nil
  total := rfl

theorem Represents.sound {t : Table} {rows : List Row} {p : Partition}
    (represents : t.Represents rows p) :
  p.Sound
  := (Partition.sound_empty t.plan).read represents.read

theorem Represents.plan {t : Table} {rows : List Row} {p : Partition}
    (represents : t.Represents rows p) :
  p.plan = t.plan
  := Partition.plan_of_read represents.read

/-- Reading the snapshot first is as good as reading all rows that went into it. -/
theorem Represents.similar {t : Table} {rows : List Row} {p : Partition}
    (represents : t.Represents rows p) :
  t.held.Similar p
  := by
  rw [held, ← represents.plan]
  apply Partition.similar_ofSettled represents.sound
  intro parent
  rw [represents.intact.sound.rowsUnder_rows, represents.plan]
  apply represents.alike parent

/-- A payload is refused for the reason for which a partition refuses its rows.  Otherwise the
table goes on to hold what the partition has become. -/
theorem Represents.merge {t : Table} {rows batch : List Row} {p : Partition}
    (represents : t.Represents rows p) (unbounded : t.storeSize = .unbounded)
    (fits : (rows ++ batch).length < UInt64.size) (rooted : Rooted (rows ++ batch)) :
  (t.merge (.ofRows batch)).2 = (p.read (.ofRows batch)).2
    ∧ ((p.read (.ofRows batch)).2 = none →
      (t.merge (.ofRows batch)).1.Represents (rows ++ batch) (p.read (.ofRows batch)).1)
  := by
  obtain ⟨hfault, hsimilar⟩ := represents.similar.read represents.intact.sound_held batch
  rcases hq : t.held.read (.ofRows batch) with ⟨q, _ | fault⟩
  · rw [hq] at hfault hsimilar
    have hmerged := represents.intact.merge batch
    obtain ⟨m, hmerge, hkeeps⟩ := represents.intact.merge_of_read hq
    rw [hmerge] at hmerged ⊢
    use hfault
    intro hnone
    generalize hp' : (p.read (.ofRows batch)).1 = p' at hsimilar ⊢
    have hread : (Partition.empty t.plan).read (.ofRows (rows ++ batch)) = (p', none) := by
      rw [Payload.ofRows_append, Partition.read_append_of_none represents.read]
      apply Prod.ext hp' hnone
    have hqsound : q.Sound := represents.intact.sound_held.read hq
    have hplan : q.plan = t.plan := Partition.plan_of_read hq
    have halike (parent : Key) : Alike t.plan.hasSort (q.under parent) (p'.under parent) := by
      rw [← hplan]
      apply (hsimilar rfl).under
    have harrange (parent : Key) :
        t.plan.arrange (q.emit.map (·.2)) parent = (q.under parent).mergeSort t.plan.mayPrecede := by
      rw [Plan.arrange, hqsound.rowsUnder_emit]
    have hperm (parent : Key) :
        (t.plan.arrange (q.emit.map (·.2)) parent).Perm (p'.under parent) := by
      rw [harrange]
      apply (List.mergeSort_perm _ _).trans (halike parent).1
    have hchildren (parent : Key) :
        m.children parent = (q.under parent).mergeSort t.plan.mayPrecede := by
      rw [← harrange]
      rw [unbounded] at hkeeps
      apply hkeeps.children_eq
      · intro key
        rw [(hperm key).length_eq]
        apply Nat.lt_of_le_of_lt _ fits
        apply Partition.length_under_le hread
      · intro key hroot hne
        have hne' : p'.under key ≠ [] := by
          intro hnil
          apply hne
          rw [← List.perm_nil, ← hnil]
          apply hperm
        obtain ⟨row, hrow, hkey⟩ := Partition.exists_group_of_rooted hread rooted hroot hne'
        use row, (hperm _).mem_iff.mpr hrow
    constructor
    case read => apply hread
    case intact => apply hmerged
    case alike =>
      intro parent
      change Alike _ (m.children parent) _
      rw [hchildren]
      apply (Plan.alike_mergeSort _ _).trans (halike parent)
    case sorted =>
      intro parent
      change (m.children parent).Pairwise _
      rw [hchildren]
      apply List.pairwise_mergeSort t.plan.mayPrecede_trans t.plan.mayPrecede_total
    case total => simp [represents.total, UInt64.ofNat_add]
  · rw [represents.intact.merge_of_fault hq, ← hfault, hq]
    use rfl
    intro hnone
    contradiction

/-- Many payloads are refused for the reason for which a partition refuses their rows. -/
theorem Represents.feed {t : Table} {rows : List Row} {p : Partition} {batches : List (List Row)}
    (represents : t.Represents rows p) (idle : t.Idle) (unbounded : t.storeSize = .unbounded)
    (fits : (rows ++ batches.flatten).length < UInt64.size)
    (rooted : ∀ seen, seen <+: batches → Rooted (rows ++ seen.flatten)) :
  (t.feed (batches.map .ofRows)).2.findSome? id = (p.read (.ofRows batches.flatten)).2
    ∧ ((p.read (.ofRows batches.flatten)).2 = none →
      (t.feed (batches.map .ofRows)).1.Represents (rows ++ batches.flatten)
        (p.read (.ofRows batches.flatten)).1)
  := by
  induction batches generalizing t rows p with
  | nil =>
      use rfl
      intro _
      simp only [List.flatten_nil, List.append_nil]
      apply represents
  | cons batch batches ih =>
      have hrooted : Rooted (rows ++ batch) := by
        have := rooted [batch] (by simp)
        simpa using this
      have hfits : (rows ++ batch).length < UInt64.size := by
        simp only [List.flatten_cons, List.length_append] at fits ⊢
        omega
      obtain ⟨hfault, hmerge⟩ := represents.merge unbounded hfits hrooted
      rw [List.map_cons, idle.feed_cons, List.flatten_cons, Payload.ofRows_append]
      rcases hp : p.read (.ofRows batch) with ⟨p', _ | fault⟩
      · rw [hp] at hfault hmerge
        simp only [List.findSome?_cons, hfault, id]
        rw [Partition.read_append_of_none hp, ← List.append_assoc]
        apply ih (hmerge rfl) (idle.merge _)
        · simpa using unbounded
        · simpa using fits
        · intro seen hseen
          have := rooted (batch :: seen) (by simpa using hseen)
          simpa using this
      · rw [hp] at hfault
        simp [Partition.read_append_of_fault hp, hfault]

/-- Tables that hold the same rows show the same, up to rows that compare equal. -/
theorem Represents.agree {t t' : Table} {rows : List Row} {p : Partition}
    (represents : t.Represents rows p) (represents' : t'.Represents rows p) :
  t.snapshot.size = t'.snapshot.size
    ∧ t.snapshot.total = t'.snapshot.total
    ∧ ∀ parent,
      (t.plan.hasSort = false → t.snapshot.children parent = t'.snapshot.children parent)
      ∧ t.plan.SameUpToTies (t.snapshot.children parent) (t'.snapshot.children parent)
  := by
  have hplan : t.plan = t'.plan := by
    rw [← represents.plan, represents'.plan]
  have halike (parent : Key) : Alike t.plan.hasSort (t.snapshot.children parent)
      (t'.snapshot.children parent) := by
    apply (represents.alike parent).trans
    rw [hplan]
    apply (represents'.alike parent).symm
  use ?size, ?total, ?children
  case size =>
    rw [represents.intact.size, represents'.intact.size]
    apply List.Perm.length_eq
    apply perm_of_rowsUnder
    intro parent
    rw [represents.intact.sound.rowsUnder_rows, represents'.intact.sound.rowsUnder_rows]
    apply (halike parent).1
  case total =>
    rw [represents.intact.total, represents'.intact.total, represents.total, represents'.total]
  case children =>
    intro parent
    use (halike parent).2
    apply Plan.sameUpToTies_of_perm (halike parent).1 (represents.sorted parent)
    rw [hplan]
    apply represents'.sorted parent

/-- Rows that bring their groups along come to the same in many payloads as in one: the first
error is that of the one payload, and without an error the snapshots agree. -/
theorem feed_agrees_flatten {fields : List Field} {showDetail : Bool} {maxResults : Option Sizes}
    {fresh : Table} {batches : List (List Row)}
    (created : create fields showDetail maxResults .unbounded = .ok fresh)
    (fits : batches.flatten.length < UInt64.size)
    (rooted : ∀ seen, seen <+: batches → Rooted seen.flatten) :
  let split := fresh.feed (batches.map .ofRows)
  let whole := fresh.add (.ofRows batches.flatten) false
  ((∀ fault ∈ split.2, fault = none) ↔ whole.2 = none)
    ∧ split.2.findSome? id = whole.2
    ∧ (whole.2 = none →
      split.1.snapshot.size = whole.1.snapshot.size
      ∧ split.1.snapshot.total = whole.1.snapshot.total
      ∧ ∀ parent,
        (fresh.plan.hasSort = false →
          split.1.snapshot.children parent = whole.1.snapshot.children parent)
        ∧ fresh.plan.SameUpToTies (split.1.snapshot.children parent)
          (whole.1.snapshot.children parent))
  := by
  obtain ⟨plan, hplan⟩ : ∃ plan, ofPlan plan maxResults .unbounded = fresh := by
    rw [create] at created
    cases hcompile : Plan.compile fields showDetail with
    | error fault => simp [hcompile, bind, Except.bind] at created
    | ok plan =>
        use plan
        simpa [hcompile, bind, Except.bind, pure, Except.pure] using created
  subst hplan
  have hidle := idle_ofPlan plan maxResults .unbounded
  have hfresh := represents_ofPlan plan maxResults .unbounded
  obtain ⟨hsplit, hsplit'⟩ := hfresh.feed hidle rfl fits rooted
  obtain ⟨hwhole, hwhole'⟩ := hfresh.merge rfl fits (rooted batches List.prefix_rfl)
  rw [hidle.add_eq]
  have hfirst : ((ofPlan plan maxResults .unbounded).feed (batches.map .ofRows)).2.findSome? id
      = ((ofPlan plan maxResults .unbounded).merge (.ofRows batches.flatten)).2 :=
    hsplit.trans hwhole.symm
  use ?succeeds, hfirst
  case succeeds =>
    rw [← hfirst, List.findSome?_eq_none_iff]
    rfl
  case _ =>
    intro hnone
    rw [hwhole] at hnone
    have := (hsplit' hnone).agree (hwhole' hnone)
    rw [hidle.plan_feed] at this
    apply this

/-- Two payloads with a row each for one group and a row beneath it. -/
def twoPayloads : List (List Row) :=
  let key : Key := ⟨[.boolean true]⟩
  [[⟨.group key, [some (.count 1)]⟩, ⟨.detail key, [some (.count 2)]⟩],
    [⟨.detail key, [some (.count 3)]⟩, ⟨.group key, [some (.count 4)]⟩]]

theorem feed_agrees_flatten_twoPayloads :
  let fresh := ofPlan ⟨1, some 0, some 1, []⟩ none .unbounded
  let split := fresh.feed (twoPayloads.map .ofRows)
  let whole := fresh.add (.ofRows twoPayloads.flatten) false
  split.2.findSome? id = none
    ∧ split.1.snapshot.size = whole.1.snapshot.size
    ∧ split.1.snapshot.total = whole.1.snapshot.total
    ∧ ∀ parent, split.1.snapshot.children parent = whole.1.snapshot.children parent
  := by
  intro fresh split whole
  have created : create [(Field.named "region").groupedAt 0] true none .unbounded = .ok fresh := rfl
  have rooted : ∀ seen, seen <+: twoPayloads → Rooted seen.flatten := by
    simp only [← List.mem_inits]
    decide
  have accepted : whole.2 = none := by
    have hadd : whole = fresh.merge (.ofRows twoPayloads.flatten) := (idle_ofPlan _ _ _).add_eq _
    rw [hadd]
    rfl
  obtain ⟨-, hfirst, hagree⟩ := feed_agrees_flatten created (by decide) rooted
  obtain ⟨hsize, htotal, hchildren⟩ := hagree accepted
  use hfirst.trans accepted, hsize, htotal
  intro parent
  apply (hchildren parent).1 rfl

end Table

end Collate
