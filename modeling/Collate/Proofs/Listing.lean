import Collate.Proofs.WellFormed

/-!
# Rows listed in another order

A snapshot says in which order the children of each key come, but not in which order the keys do.
The rows that a merge retains are therefore some listing of the snapshot, in which the children of
different keys are interleaved in any way.  What comes of the next payload is the same for all
listings: a merge keeps apart what stands beneath different keys until the end.
-/

namespace Collate

/-! ### Groups in another order -/

/-- A row whose group was seen is combined with the row of that group. -/
theorem combineInto_append_of_mem {key : Key} {groups : List (Key × Row)}
    (h : key ∈ groups.map (·.1)) (row : Row) (groups' : List (Key × Row)) :
  combineInto key row (groups ++ groups')
    = ((combineInto key row groups).1 ++ groups', (combineInto key row groups).2)
  := by
  induction groups with
  | nil => contradiction
  | cons entry groups ih =>
      rw [List.cons_append, combineInto, combineInto]
      by_cases hk : entry.1 = key
      · simp [hk]
      · have hrest : key ∈ groups.map (·.1) := by
          simpa [Ne.symm hk] using h
        rw [if_neg hk, if_neg hk, ih hrest]
        rfl

/-- A row whose group was not seen passes over all that were. -/
theorem combineInto_append_of_notMem {key : Key} {groups : List (Key × Row)}
    (h : key ∉ groups.map (·.1)) (row : Row) (groups' : List (Key × Row)) :
  combineInto key row (groups ++ groups')
    = (groups ++ (combineInto key row groups').1, (combineInto key row groups').2)
  := by
  induction groups with
  | nil => rfl
  | cons entry groups ih =>
      rw [List.map_cons, List.mem_cons, not_or] at h
      rw [List.cons_append, combineInto, if_neg (Ne.symm h.1), ih h.2]
      rfl

/-- Groups under their own keys. -/
def OwnGroups (groups : List (Key × Row)) : Prop :=
  ∀ entry ∈ groups, entry.2.key = .group entry.1

/-- Combining a row into a group that is there keeps the groups under their own keys. -/
theorem OwnGroups.combineInto {groups : List (Key × Row)} (own : OwnGroups groups) {key : Key}
    (h : key ∈ groups.map (·.1)) (row : Row) :
  OwnGroups (combineInto key row groups).1
  := by
  induction groups with
  | nil => contradiction
  | cons first groups ih =>
      have hfirst := own first List.mem_cons_self
      have hgroups : OwnGroups groups := fun entry hentry =>
        own entry (List.mem_cons_of_mem _ hentry)
      rw [Collate.combineInto]
      intro entry hentry
      by_cases hk : first.1 = key
      · rw [if_pos hk] at hentry
        obtain rfl | hentry := List.mem_cons.mp hentry
        · apply hfirst
        · apply hgroups entry hentry
      · have hrest : key ∈ groups.map (·.1) := by
          simpa [Ne.symm hk] using h
        rw [if_neg hk] at hentry
        obtain rfl | hentry := List.mem_cons.mp hentry
        · apply hfirst
        · apply ih hgroups hrest entry hentry

/-- The same groups under their own keys, those of each parent in one order. -/
structure Reordered (groups groups' : List (Key × Row)) : Prop where
  own : OwnGroups groups
  under : ∀ parent, (groups.filter fun entry => entry.1.parent = parent)
    = groups'.filter fun entry => entry.1.parent = parent

namespace Reordered

variable {groups groups' : List (Key × Row)}

/-- Reordering groups keeps which there are. -/
theorem mem_iff (h : Reordered groups groups') (entry : Key × Row) :
  entry ∈ groups ↔ entry ∈ groups'
  := by
  have (l : List (Key × Row)) :
      entry ∈ l ↔ entry ∈ l.filter fun e => e.1.parent = entry.1.parent := by simp
  rw [this groups, h.under, ← this]

/-- Reordering groups keeps their keys. -/
theorem mem_map_fst_iff (h : Reordered groups groups') (key : Key) :
  key ∈ groups.map (·.1) ↔ key ∈ groups'.map (·.1)
  := by
  simp only [List.mem_map, h.mem_iff]

/-- The reordered groups are under their own keys, too. -/
theorem own' (h : Reordered groups groups') :
  OwnGroups groups'
  := fun entry hentry => h.own entry ((h.mem_iff entry).mpr hentry)

/-- A row is combined into reordered groups alike, with the same refusal. -/
theorem combineInto (h : Reordered groups groups') {key : Key} (hkey : key ∈ groups.map (·.1))
    (row : Row) :
  Reordered (combineInto key row groups).1 (combineInto key row groups').1
    ∧ (combineInto key row groups).2 = (combineInto key row groups').2
  := by
  have hsame := congrArg (Collate.combineInto key row) (h.under key.parent)
  rw [combineInto_filter (q := fun k => k.parent = key.parent) (by simp),
    combineInto_filter (q := fun k => k.parent = key.parent) (by simp), Prod.mk.injEq] at hsame
  constructor
  · constructor
    case own => apply h.own.combineInto hkey
    case under =>
      intro parent
      by_cases hk : key.parent = parent
      · subst hk
        apply hsame.1
      · rw [filter_combineInto (q := fun k => k.parent = parent) (by simpa using hk),
          filter_combineInto (q := fun k => k.parent = parent) (by simpa using hk)]
        apply h.under parent
  · apply hsame.2

end Reordered

/-- The rows of groups that stand beneath a parent are found by the keys of the groups. -/
theorem OwnGroups.rowsUnder_map_filter {groups : List (Key × Row)} (own : OwnGroups groups)
    (parent : Key) (q : Key × Row → Bool) :
  rowsUnder parent ((groups.filter q).map (·.2))
    = ((groups.filter fun entry => entry.1.parent = parent).filter q).map (·.2)
  := by
  rw [rowsUnder, List.filter_map, List.filter_filter, List.filter_filter]
  congr 1
  apply List.filter_congr
  intro entry hentry
  rw [Function.comp_apply, own entry hentry, RowKey.parent, Bool.and_comm]

namespace Partition

/-- Partitions that have seen the same groups first, the groups of different parents interleaved
in different ways, and then the same groups in one order. -/
structure Interleaved (p q : Partition) : Prop where
  plan : p.plan = q.plan
  details : ∀ parent, p.detailsUnder parent = q.detailsUnder parent
  groups : ∃ seen seen' groups, p.groups = seen ++ groups ∧ q.groups = seen' ++ groups
    ∧ Reordered seen seen'

namespace Interleaved

variable {p q : Partition}

/-- Letting a row pass through keeps two partitions interleaved. -/
theorem passThrough (h : p.Interleaved q) (key : RowKey) (row : Row) :
  (p.passThrough key row).Interleaved (q.passThrough key row)
  where
  plan := h.plan
  groups := h.groups
  details parent := by
    simp only [detailsUnder, Partition.passThrough, List.map_append, rowsUnder_append]
    congr 1
    apply h.details parent

/-- A row is combined into interleaved partitions alike, with the same refusal.  The group is looked
for among those seen first, and a new one joins those that come in one order. -/
theorem combineInto (h : p.Interleaved q) (key : Key) (row : Row) :
  (combineInto key row p.groups).2 = (combineInto key row q.groups).2
    ∧ { p with groups := (combineInto key row p.groups).1 }.Interleaved
        { q with groups := (combineInto key row q.groups).1 }
  := by
  obtain ⟨seen, seen', groups, hp, hq, hseen⟩ := h.groups
  by_cases hkey : key ∈ seen.map (·.1)
  · have hkey' := (hseen.mem_map_fst_iff key).mp hkey
    obtain ⟨hcombined, hfault⟩ := hseen.combineInto hkey row
    rw [hp, hq, combineInto_append_of_mem hkey, combineInto_append_of_mem hkey']
    use hfault
    exact ⟨h.plan, h.details, _, _, groups, rfl, rfl, hcombined⟩
  · have hkey' := (hseen.mem_map_fst_iff key).not.mp hkey
    rw [hp, hq, combineInto_append_of_notMem hkey, combineInto_append_of_notMem hkey']
    use rfl
    exact ⟨h.plan, h.details, seen, seen', _, rfl, rfl, hseen⟩

/-- A row is refused for one reason whatever the order of what was seen. -/
theorem collect (h : p.Interleaved q) (key : RowKey) (row : Row) :
  (p.collect key row).2 = (q.collect key row).2
    ∧ (p.collect key row).1.Interleaved (q.collect key row).1
  := by
  cases hslots : p.plan.slotFault? row with
  | some fault =>
      have hslots' : q.plan.slotFault? row = some fault := h.plan ▸ hslots
      rw [collect_of_slotFault hslots, collect_of_slotFault hslots']
      exact ⟨rfl, h⟩
  | none =>
      have hslots' : q.plan.slotFault? row = none := h.plan ▸ hslots
      unfold Partition.collect
      rw [hslots, hslots', ← h.plan]
      cases key with
      | detail parent => exact ⟨rfl, h.passThrough _ _⟩
      | group group =>
          simp only
          split
          · exact ⟨rfl, h.passThrough _ _⟩
          · split
            · exact ⟨rfl, h⟩
            · obtain ⟨hfault, hcombined⟩ := h.combineInto group row
              rw [← h.plan] at hcombined
              exact ⟨congrArg (Option.map Error.incompatible) hfault, hcombined⟩

/-- Interleaved partitions read a payload alike: both refuse it with one error, or they stay
interleaved. -/
theorem read (h : p.Interleaved q) (payload : Payload) :
  (p.read payload).2 = (q.read payload).2
    ∧ ((p.read payload).2 = none → (p.read payload).1.Interleaved (q.read payload).1)
  := by
  apply read_relation h
  intro p q entry _ interleaved
  obtain ⟨hfault, hcollected⟩ := interleaved.collect entry.1 entry.2
  exact ⟨hfault, fun _ => hcollected⟩

/-- What is emitted beneath a key comes in one order.  Groups seen first are under their own keys,
so that what places them is what finds them. -/
theorem rowsUnder_emit (h : p.Interleaved q) (parent : Key) :
  rowsUnder parent (p.emit.map (·.2)) = rowsUnder parent (q.emit.map (·.2))
  := by
  obtain ⟨seen, seen', groups, hp, hq, hseen⟩ := h.groups
  have hdepth (depth : ℕ) :
      rowsUnder parent (p.atDepth depth) = rowsUnder parent (q.atDepth depth) := by
    rw [atDepth, atDepth, hp, hq, List.filter_append, List.filter_append, List.map_append,
      List.map_append, rowsUnder_append, rowsUnder_append, hseen.own.rowsUnder_map_filter,
      hseen.own'.rowsUnder_map_filter, hseen.under]
  rw [Partition.rowsUnder_emit, Partition.rowsUnder_emit, h.details, h.plan]
  simp only [hdepth]

end Interleaved

/-- Reading rows in another order interleaves the groups in another way. -/
theorem interleaved_ofSettled (plan : Plan) {rows rows' : List Row}
    (h : ∀ parent, rowsUnder parent rows = rowsUnder parent rows') :
  (ofSettled plan rows).Interleaved (ofSettled plan rows')
  where
  plan := rfl
  details parent := by rw [detailsUnder_ofSettled, detailsUnder_ofSettled, h]
  groups := by
    refine ⟨_, _, [], (List.append_nil _).symm, (List.append_nil _).symm, ?_⟩
    constructor
    case own =>
      intro entry hentry
      apply (mem_groups_ofSettled.mp hentry).2
    case under =>
      intro parent
      apply (groupsUnder_ofSettled plan rows parent).trans
      rw [h]
      apply (groupsUnder_ofSettled plan rows' parent).symm

end Partition

/-! ### Snapshots that agree -/

namespace Snapshot

/-- The rows of a snapshot in some order, the children of each key in theirs. -/
def ListedBy (s : Snapshot) (rows : List Row) : Prop :=
  ∀ parent, rowsUnder parent rows = s.children parent

/-- Whether rows list a snapshot is decided by the parents that occur in either. -/
theorem listedBy_iff {s : Snapshot} {rows : List Row} :
  s.ListedBy rows ↔ ∀ parent ∈ rows.map (·.key.parent) ++ s.rowsByParent.entries.map (·.1),
    rowsUnder parent rows = s.children parent
  := by
  constructor
  · intro h parent _
    apply h
  · intro h parent
    by_cases hparent : parent ∈ rows.map (·.key.parent) ++ s.rowsByParent.entries.map (·.1)
    · apply h parent hparent
    · rw [List.mem_append, not_or, ChildMap.mem_map_fst_iff, Option.not_isSome_iff_eq_none]
        at hparent
      rw [children, ChildMap.children, hparent.2, Option.getD_none, rowsUnder,
        List.filter_eq_nil_iff]
      intro row hrow hkey
      apply hparent.1
      apply List.mem_map.mpr
      use row, hrow, of_decide_eq_true hkey

instance (s : Snapshot) (rows : List Row) : Decidable (s.ListedBy rows) :=
  decidable_of_iff _ listedBy_iff.symm

/-- Snapshots that show the same: one entry for each parent, and the same counts. -/
structure Agrees (s s' : Snapshot) : Prop where
  entries : ∀ parent, s.rowsByParent.find? parent = s'.rowsByParent.find? parent
  size : s.size = s'.size
  total : s.total = s'.total

namespace Agrees

variable {s s' s'' : Snapshot}

theorem refl (s : Snapshot) :
  s.Agrees s
  := ⟨fun _ => rfl, rfl, rfl⟩

theorem symm (h : s.Agrees s') :
  s'.Agrees s
  := ⟨fun parent => (h.entries parent).symm, h.size.symm, h.total.symm⟩

theorem trans (h : s.Agrees s') (h' : s'.Agrees s'') :
  s.Agrees s''
  := ⟨fun parent => (h.entries parent).trans (h'.entries parent), h.size.trans h'.size,
    h.total.trans h'.total⟩

/-- A listing of a snapshot lists each snapshot that agrees with it. -/
theorem listedBy (h : s.Agrees s') {rows : List Row} (listed : s'.ListedBy rows) :
  s.ListedBy rows
  := by
  intro parent
  rw [listed parent, children, children, ChildMap.children, ChildMap.children, h.entries]

end Agrees

end Snapshot

/-- Rows that differ only in how their parents are interleaved are published as snapshots that
agree. -/
theorem Published.agrees {plan : Plan} {sizes : Sizes} {rows rows' : List Row} {m m' : ChildMap}
    (published : Published plan sizes rows m) (published' : Published plan sizes rows' m')
    (h : ∀ parent, rowsUnder parent rows = rowsUnder parent rows') (total : UInt64) :
  Snapshot.Agrees ⟨m, m.size, total⟩ ⟨m', m'.size, total⟩
  := by
  have harrange : plan.arrange rows = plan.arrange rows' := by
    funext parent
    rw [Plan.arrange, Plan.arrange, h]
  have hentries (parent : Key) : m.find? parent = m'.find? parent := by
    apply Option.ext
    intro kept
    rw [published.entries, published'.entries, harrange]
  constructor
  case entries => apply hentries
  case size =>
    apply List.Perm.length_eq
    apply perm_of_rowsUnder
    intro parent
    rw [published.keeps.sound.rowsUnder_rows, published'.keeps.sound.rowsUnder_rows,
      ChildMap.children, ChildMap.children, hentries]
  case total => rfl

namespace Table

/-! ### Folds into listings of one snapshot -/

/-- Two folds that come to the same: to one error, or to snapshots that agree, each retaining a
listing of its own. -/
inductive FoldsAlike :
    Except Error (Payload × Snapshot) → Except Error (Payload × Snapshot) → Prop where
  | refused (fault : Error) : FoldsAlike (.error fault) (.error fault)
  | published {s s' : Snapshot} {rows rows' : List Row} (agrees : s.Agrees s')
    (listed : s.ListedBy rows) (listed' : s'.ListedBy rows') :
    FoldsAlike (.ok (.ofRows rows, s)) (.ok (.ofRows rows', s'))

/-- A payload folds alike onto rows that differ only in how their parents are interleaved. -/
theorem fold_alike {plan : Plan} {rows rows' : List Row} (settled : Settled plan rows)
    (h : ∀ parent, rowsUnder parent rows = rowsUnder parent rows') (sizes : Sizes)
    (payload : Payload) (total : UInt64) :
  FoldsAlike (fold plan sizes (.ofRows rows) payload total)
    (fold plan sizes (.ofRows rows') payload total)
  := by
  have hperm : rows.Perm rows' := by
    apply perm_of_rowsUnder
    intro parent
    rw [h]
  have hreduce := reduce_of_settled settled payload
  have hreduce' := reduce_of_settled (settled.of_subperm hperm.symm.subperm) payload
  obtain ⟨hfault, hread⟩ := (Partition.interleaved_ofSettled plan h).read payload
  generalize (Partition.ofSettled plan rows).read payload = outcome at *
  generalize (Partition.ofSettled plan rows').read payload = outcome' at *
  obtain ⟨p, fault⟩ := outcome
  obtain ⟨q, fault'⟩ := outcome'
  obtain rfl : fault = fault' := hfault
  cases fault with
  | some fault =>
      rw [fold_of_error hreduce, fold_of_error hreduce']
      apply FoldsAlike.refused
  | none =>
      obtain ⟨m, hfold, published⟩ := fold_of_ok hreduce sizes total (reduce_ok hreduce).1
      obtain ⟨m', hfold', published'⟩ := fold_of_ok hreduce' sizes total (reduce_ok hreduce').1
      rw [hfold, hfold']
      apply FoldsAlike.published
      · apply published.agrees published' (hread rfl).rowsUnder_emit
      · apply published.keeps.sound.rowsUnder_rows
      · apply published'.keeps.sound.rowsUnder_rows

/-! ### Runs that list the rows anew -/

/-- The same error, and snapshots that show the same. -/
structure Outcome.Agrees (o o' : Outcome) : Prop where
  fault : o.fault = o'.fault
  snapshot : o.snapshot.Agrees o'.snapshot

namespace Outcome.Agrees

variable {o o' o'' : Outcome}

theorem symm (h : o.Agrees o') :
  o'.Agrees o
  := ⟨h.fault.symm, h.snapshot.symm⟩

theorem trans (h : o.Agrees o') (h' : o'.Agrees o'') :
  o.Agrees o''
  := ⟨h.fault.trans h'.fault, h.snapshot.trans h'.snapshot⟩

end Outcome.Agrees

/-- Another table that differs in how it lists the rows of its snapshot for the next merge. -/
def Relisted (t t' : Table) : Prop :=
  ∃ rows, t.snapshot.ListedBy rows ∧ t' = { t with retained := .ofRows rows }

/-- What may come of payloads that are added one after the other, if the rows are listed in some
order or other after each. -/
inductive RelistedRun : Table → List Payload → List Outcome → Prop where
  | nil {t : Table} : RelistedRun t [] []
  | cons {t t' : Table} {payload : Payload} {payloads : List Payload} {outcomes : List Outcome}
    (relisted : (t.add payload false).1.Relisted t') (rest : RelistedRun t' payloads outcomes) :
    RelistedRun t (payload :: payloads) (⟨(t.add payload false).2, t'.snapshot⟩ :: outcomes)

/-- An intact table retains a listing of its snapshot. -/
theorem Intact.listedBy {t : Table} (intact : t.Intact) :
  t.snapshot.ListedBy t.snapshot.rowsByParent.rows
  := intact.sound.rowsUnder_rows

theorem Intact.relisted {t : Table} (intact : t.Intact) :
  t.Relisted t
  := by
  use t.snapshot.rowsByParent.rows, intact.listedBy
  change t = { t with retained := t.snapshot.payload }
  rw [← intact.retained]

/-- The order in which a table lists its rows by itself is one of them. -/
theorem Intact.relistedRun {t : Table} (intact : t.Intact) (idle : t.Idle)
    (batches : List (List Row)) :
  RelistedRun t (batches.map .ofRows) (t.outcomes (batches.map .ofRows))
  := by
  induction batches generalizing t with
  | nil => apply RelistedRun.nil
  | cons batch batches ih =>
      have hrest := ih (intact.merge batch) (idle.merge _)
      have hrelisted := (intact.merge batch).relisted
      rw [List.map_cons, idle.outcomes_cons]
      rw [← idle.add_eq] at hrest hrelisted ⊢
      apply RelistedRun.cons hrelisted hrest

/-- A table beside another one that shows the same and retains a listing of it. -/
structure Beside (t t' : Table) : Prop where
  plan : t.plan = t'.plan
  storeSize : t.storeSize = t'.storeSize
  total : t.total = t'.total
  agrees : t.snapshot.Agrees t'.snapshot
  retained : ∃ rows, t'.retained = .ofRows rows ∧ t.snapshot.ListedBy rows

/-- An intact table stands beside itself. -/
theorem Intact.beside_self {t : Table} (intact : t.Intact) :
  t.Beside t
  where
  plan := rfl
  storeSize := rfl
  total := rfl
  agrees := .refl _
  retained := ⟨_, intact.retained, intact.listedBy⟩

/-- A payload folds alike at an intact table and at one beside it. -/
theorem Beside.fold_alike {t t' : Table} (beside : t.Beside t') (intact : t.Intact)
    (payload : Payload) :
  FoldsAlike (fold t.plan t.storeSize t.retained payload (t.total + UInt64.ofNat payload.length))
    (fold t'.plan t'.storeSize t'.retained payload (t'.total + UInt64.ofNat payload.length))
  := by
  obtain ⟨rows, hretained, hlisted⟩ := beside.retained
  rw [hretained, intact.retained, ← beside.plan, ← beside.storeSize, ← beside.total]
  apply Table.fold_alike intact.settled
  intro parent
  rw [intact.listedBy, hlisted]

/-- Side by side, payloads are refused alike and merged alike. -/
theorem Beside.merge {t t' t'' : Table} (beside : t.Beside t') (intact : t.Intact)
    (payload : Payload) (relisted : (t'.merge payload).1.Relisted t'') :
  (t.merge payload).2 = (t'.merge payload).2 ∧ (t.merge payload).1.Beside t''
  := by
  have halike := beside.fold_alike intact payload
  generalize hfold : fold t.plan t.storeSize t.retained payload _ = folded at halike
  generalize hfold' : fold t'.plan t'.storeSize t'.retained payload _ = folded' at halike
  obtain ⟨rows, hlisted, rfl⟩ := relisted
  cases halike with
  | refused fault =>
      rw [merge_of_error hfold'] at hlisted ⊢
      rw [merge_of_error hfold]
      use rfl
      exact ⟨beside.plan, beside.storeSize, beside.total, beside.agrees, rows, rfl,
        beside.agrees.listedBy hlisted⟩
  | published agrees listed listed' =>
      rw [merge_of_ok hfold'] at hlisted ⊢
      rw [merge_of_ok hfold]
      use rfl
      exact ⟨beside.plan, beside.storeSize, congrArg (· + UInt64.ofNat payload.length) beside.total,
        agrees, rows, rfl, agrees.listedBy hlisted⟩

/-- Whatever the order in which the rows are listed after each payload, the same comes of all
payloads.  Each run is compared with a table that lists its rows by itself, whose rows are
settled. -/
theorem RelistedRun.agrees {t t' : Table} {batches : List (List Row)} {outcomes : List Outcome}
    (run : RelistedRun t' (batches.map .ofRows) outcomes) (beside : t.Beside t')
    (intact : t.Intact) (idle : t.Idle) (idle' : t'.Idle) :
  List.Forall₂ Outcome.Agrees (t.outcomes (batches.map .ofRows)) outcomes
  := by
  induction batches generalizing t t' outcomes with
  | nil =>
      cases run
      apply List.Forall₂.nil
  | cons batch batches ih =>
      obtain - | @⟨_, t'', _, _, outcomes, relisted, rest⟩ := run
      rw [idle'.add_eq] at relisted ⊢
      rw [List.map_cons, idle.outcomes_cons]
      obtain ⟨hfault, hbeside⟩ := beside.merge intact (.ofRows batch) relisted
      have hidle' : t''.Idle := by
        obtain ⟨rows, -, rfl⟩ := relisted
        have := idle'.merge (.ofRows batch)
        exact ⟨this.pending, this.gate, this.cleared⟩
      apply List.Forall₂.cons
      · exact ⟨hfault, hbeside.agrees⟩
      · apply ih rest hbeside (intact.merge batch) (idle.merge _) hidle'

/-- The rows of a snapshot come to the same in whatever order its parents are listed.  A payload
is refused with one error by all listings, or the snapshots of all of them agree, and so do whole
runs that list the rows anew after each payload. -/
theorem snapshots_agree_relisted (plan : Plan) (maxResults : Option Sizes) (storeSize : Sizes) :
  let fresh := ofPlan plan maxResults storeSize
  (∀ events t, Path fresh events t → (∀ payload ∈ arrivals events, payload.OwnKeyed) →
    (∃ rows, t.snapshot.ListedBy rows ∧ t.retained = .ofRows rows)
    ∧ ∀ rows rows', t.snapshot.ListedBy rows → t.snapshot.ListedBy rows' → ∀ payload total,
      FoldsAlike (fold plan storeSize (.ofRows rows) payload total)
        (fold plan storeSize (.ofRows rows') payload total))
  ∧ ∀ batches : List (List Row),
    RelistedRun fresh (batches.map .ofRows) (fresh.outcomes (batches.map .ofRows))
    ∧ ∀ outcomes outcomes', RelistedRun fresh (batches.map .ofRows) outcomes →
      RelistedRun fresh (batches.map .ofRows) outcomes' →
      List.Forall₂ Outcome.Agrees outcomes outcomes'
  := by
  intro fresh
  have intact : fresh.Intact := intact_ofPlan plan maxResults storeSize
  have idle : fresh.Idle := idle_ofPlan plan maxResults storeSize
  constructor
  · intro events t path own
    have intact := path.intact own
    have hplan : t.plan = plan := path.plan_eq.1
    use ⟨_, intact.listedBy, intact.retained⟩
    intro rows rows' listed listed' payload total
    apply fold_alike
    · rw [← hplan]
      apply intact.settled.of_subperm
      apply (perm_of_rowsUnder _).subperm
      intro parent
      rw [listed, intact.listedBy]
    · intro parent
      rw [listed, listed']
  · intro batches
    use intact.relistedRun idle batches
    intro outcomes outcomes' run run'
    have hrun := run.agrees intact.beside_self intact idle idle
    have hrun' := run'.agrees intact.beside_self intact idle idle
    rw [List.forall₂_iff_get]
    use hrun.length_eq.symm.trans hrun'.length_eq
    intro i hi hi'
    have hself := hrun.length_eq ▸ hi
    apply (hrun.get hself hi).symm.trans (hrun'.get hself hi')

/-- Two payloads with groups and what stands beneath them. -/
def interleavedBatches : List Row × List Row :=
  let a : Key := ⟨[.boolean true]⟩
  let b : Key := ⟨[.boolean false]⟩
  ([⟨.group a, [some (.count 1)]⟩, ⟨.detail b, [none]⟩, ⟨.group b, [some (.count 2)]⟩,
      ⟨.detail a, [some (.count 3)]⟩],
    [⟨.group ⟨[.null]⟩, [some (.count 4)]⟩, ⟨.detail a, [none]⟩, ⟨.group b, [some (.count 5)]⟩])

/-- The rows of the first payload, those beneath the second group first. -/
def interleavedListing : List Row :=
  let a : Key := ⟨[.boolean true]⟩
  let b : Key := ⟨[.boolean false]⟩
  [⟨.detail b, [none]⟩, ⟨.group a, [some (.count 1)]⟩, ⟨.detail a, [some (.count 3)]⟩,
    ⟨.group b, [some (.count 2)]⟩]

theorem snapshots_agree_relisted_interleaved :
  let fresh := ofPlan ⟨1, some 0, some 1, []⟩ none ⟨[2, 1]⟩
  let first := interleavedBatches.1
  let second := interleavedBatches.2
  let t := (fresh.add (.ofRows first) false).1
  let t' := { t with retained := .ofRows interleavedListing }
  t.retained ≠ t'.retained
    ∧ FoldsAlike (fold fresh.plan fresh.storeSize t.retained (.ofRows second) 7)
      (fold fresh.plan fresh.storeSize t'.retained (.ofRows second) 7)
    ∧ List.Forall₂ Outcome.Agrees (fresh.outcomes ([first, second].map .ofRows))
      (⟨none, t'.snapshot⟩ :: t'.outcomes [.ofRows second])
  := by
  intro fresh first second t t'
  obtain ⟨hfolds, hruns⟩ := snapshots_agree_relisted fresh.plan none fresh.storeSize
  have listed : t.snapshot.ListedBy interleavedListing := by decide +kernel
  use by decide +kernel, ?folds, ?runs
  case folds =>
    have path : Path fresh (events (fresh.traceAll [.add (.ofRows first) [] false])) t :=
      path_trace.2.1 fresh [.add (.ofRows first) [] false]
    have brought : arrivals (events (fresh.traceAll [.add (.ofRows first) [] false]))
        = [.ofRows first] := by
      decide +kernel
    have own : ∀ payload ∈ arrivals (events (fresh.traceAll [.add (.ofRows first) [] false])),
        payload.OwnKeyed := by
      rw [brought]
      intro payload hpayload
      rw [List.mem_singleton.mp hpayload]
      apply Payload.ownKeyed_ofRows
    obtain ⟨⟨rows, hrows, hretained⟩, hfold⟩ := hfolds _ t path own
    rw [hretained]
    apply hfold rows interleavedListing hrows listed
  case runs =>
    let u := (t'.add (.ofRows second) false).1
    have taken : (fresh.add (.ofRows first) false).2 = none := by decide +kernel
    have hretained : u.retained = .ofRows u.snapshot.rowsByParent.rows := by decide +kernel
    have relisted : u.Relisted u := by
      use u.snapshot.rowsByParent.rows, by decide +kernel
      rw [← hretained]
    have run : RelistedRun t' [.ofRows second] (t'.outcomes [.ofRows second]) :=
      .cons relisted .nil
    obtain ⟨hself, hagree⟩ := hruns [first, second]
    apply hagree _ _ hself
    rw [← taken]
    exact .cons ⟨interleavedListing, listed, rfl⟩ run

end Table

end Collate
