import Collate.Partition
import Collate.Proofs.ChildMap

/-!
# Reading rows into a partition

Whatever the key under which it is queued, a row either stands among the details or is combined with
those of one group.  Where rows are queued under their own keys, what a partition comes to depends,
beneath each parent, only on what was read beneath that parent: two partitions that are similar
refuse the same rows with the same errors and stay similar.
-/

namespace Collate

/-- A row is fit for a plan exactly if it has a slot for each field. -/
theorem Plan.slotFault?_eq_none_iff {p : Plan} {row : Row} :
  p.slotFault? row = none ↔ row.slots.length = p.fieldCount
  := by
  simp [slotFault?]

/-- A row as a table holds it: without a group value it is a detail row at the top. -/
def Row.settled (row : Row) : Row :=
  if row.key = .group .root then { row with key := .detail .root } else row

/-- A row that is settled as a group is a group row, and not the root. -/
theorem Row.settled_of_group {row : Row} {key : Key} (h : row.settled.key = .group key) :
  row.settled = row ∧ key ≠ .root
  := by
  by_cases hroot : row.key = .group .root
  · rw [settled, if_pos hroot] at h
    contradiction
  · rw [settled, if_neg hroot] at *
    use rfl
    rintro rfl
    apply hroot h

@[simp]
theorem Payload.ofRows_append (rows rows' : List Row) :
  ofRows (rows ++ rows') = ofRows rows ++ ofRows rows'
  := List.map_append

@[simp]
theorem Payload.map_snd_ofRows (rows : List Row) :
  (ofRows rows).map (·.2) = rows
  := by
  simp [ofRows, Function.comp_def]

/-! ### Combining rows -/

theorem Slot.length_combineAll (field : Nat) (as bs : List Slot) :
  (combineAll field as bs).1.length = as.length
  := by
  fun_induction combineAll field as bs with
  | case1 => rfl
  | case2 => simp_all
  | case3 => rfl

/-- A row of a new group is added as it is. -/
theorem combineInto_of_notMem {key : Key} (row : Row) {groups : List (Key × Row)}
    (h : key ∉ groups.map (·.1)) :
  combineInto key row groups = (groups ++ [(key, row)], none)
  := by
  induction groups with
  | nil => rfl
  | cons entry groups ih =>
      rw [List.map_cons, List.mem_cons, not_or] at h
      rw [combineInto, if_neg (Ne.symm h.1), ih h.2]
      rfl

/-- Combining a row into groups adds its key, unless it is there. -/
theorem map_fst_combineInto (key : Key) (row : Row) (groups : List (Key × Row)) :
  (combineInto key row groups).1.map (·.1)
    = if key ∈ groups.map (·.1) then groups.map (·.1) else groups.map (·.1) ++ [key]
  := by
  induction groups with
  | nil => rfl
  | cons entry groups ih =>
      rw [combineInto]
      by_cases h : entry.1 = key
      · simp [h]
      · rw [if_neg h]
        simp only [List.map_cons, List.mem_cons, ih, Ne.symm h, false_or]
        split <;> rfl

/-- Combining a row into groups adds one group at most. -/
theorem length_combineInto_le (key : Key) (row : Row) (groups : List (Key × Row)) :
  (combineInto key row groups).1.length ≤ groups.length + 1
  := by
  have := congrArg List.length (map_fst_combineInto key row groups)
  rw [List.length_map] at this
  rw [this]
  split <;> simp

/-- An entry behind a combination is the row itself or one that was there, with its key and its
number of slots. -/
theorem mem_combineInto {key : Key} {row : Row} {groups : List (Key × Row)} {entry : Key × Row}
    (h : entry ∈ (combineInto key row groups).1) :
  entry = (key, row) ∨ ∃ present, (entry.1, present) ∈ groups ∧ entry.2.key = present.key
    ∧ entry.2.slots.length = present.slots.length
  := by
  induction groups with
  | nil =>
      left
      apply List.mem_singleton.mp h
  | cons first groups ih =>
      obtain ⟨k, present⟩ := first
      rw [combineInto] at h
      split at h
      · obtain rfl | h := List.mem_cons.mp h
        · right
          use present, List.mem_cons_self, rfl, Slot.length_combineAll _ _ _
        · right
          use entry.2, List.mem_cons_of_mem _ h
      · obtain rfl | h := List.mem_cons.mp h
        · right
          use present, List.mem_cons_self
        · obtain hnew | ⟨present', hmem, hsame⟩ := ih h
          · left
            apply hnew
          · right
            use present', List.mem_cons_of_mem _ hmem

/-- Combining looks at no key but that of the row. -/
theorem combineInto_filter {key : Key} {q : Key → Bool} (hq : q key = true) (row : Row)
    (groups : List (Key × Row)) :
  combineInto key row (groups.filter fun entry => q entry.1)
    = ((combineInto key row groups).1.filter (fun entry => q entry.1),
        (combineInto key row groups).2)
  := by
  induction groups with
  | nil => simp [combineInto, hq]
  | cons entry groups ih =>
      obtain ⟨k, present⟩ := entry
      by_cases h : k = key
      · subst h
        simp [combineInto, hq]
      · by_cases hk : q k = true
        · simp [combineInto, h, hk, ih]
        · simp [combineInto, h, hk, ih]

/-- Combining changes the row of no other key. -/
theorem filter_combineInto {key : Key} {q : Key → Bool} (hq : q key = false) (row : Row)
    (groups : List (Key × Row)) :
  (combineInto key row groups).1.filter (fun entry => q entry.1)
    = groups.filter fun entry => q entry.1
  := by
  induction groups with
  | nil => simp [combineInto, hq]
  | cons entry groups ih =>
      rw [combineInto]
      by_cases h : entry.1 = key
      · subst h
        simp [hq]
      · rw [if_neg h, List.filter_cons, List.filter_cons, ih]

/-- Combining takes no account of the order in which the keys were first seen. -/
theorem combineInto_perm {groups groups' : List (Key × Row)} (perm : groups.Perm groups')
    (distinct : (groups.map (·.1)).Nodup) (key : Key) (row : Row) :
  (combineInto key row groups).1.Perm (combineInto key row groups').1
    ∧ (combineInto key row groups).2 = (combineInto key row groups').2
  := by
  induction perm with
  | nil => exact ⟨.refl _, rfl⟩
  | cons entry perm ih =>
      obtain ⟨hperm, hfault⟩ := ih (List.nodup_cons.mp distinct).2
      rw [combineInto, combineInto]
      split
      · exact ⟨perm.cons _, rfl⟩
      · exact ⟨hperm.cons _, hfault⟩
  | swap entry entry' groups =>
      have hne : entry'.1 ≠ entry.1 := by
        intro h
        apply (List.nodup_cons.mp distinct).1
        simp [h]
      by_cases h : entry.1 = key
      · have h' : ¬ entry'.1 = key := h ▸ hne
        simp only [combineInto, h, h', if_true, if_false]
        exact ⟨.swap _ _ _, trivial⟩
      · by_cases h' : entry'.1 = key
        · simp only [combineInto, h, h', if_true, if_false]
          exact ⟨.swap _ _ _, trivial⟩
        · simp only [combineInto, h, h', if_false]
          exact ⟨.swap _ _ _, trivial⟩
  | trans perm perm' ih ih' =>
      obtain ⟨hperm, hfault⟩ := ih distinct
      obtain ⟨hperm', hfault'⟩ := ih' ((perm.map _).nodup_iff.mp distinct)
      exact ⟨hperm.trans hperm', hfault.trans hfault'⟩

/-! ### Lists that sorting makes one -/

/-- The same elements, and in the same order unless they are going to be sorted. -/
def Alike {α : Type} (sorting : Bool) (l l' : List α) : Prop :=
  l.Perm l' ∧ (sorting = false → l = l')

namespace Alike

variable {α β : Type} {sorting : Bool} {l l' l'' m m' : List α}

/-- A list is like itself. -/
theorem refl (sorting : Bool) (l : List α) :
  Alike sorting l l
  := ⟨.refl l, fun _ => rfl⟩

theorem symm (h : Alike sorting l l') :
  Alike sorting l' l
  := ⟨h.1.symm, fun hs => (h.2 hs).symm⟩

theorem trans (h : Alike sorting l l') (h' : Alike sorting l' l'') :
  Alike sorting l l''
  := ⟨h.1.trans h'.1, fun hs => (h.2 hs).trans (h'.2 hs)⟩

theorem append (h : Alike sorting l l') (h' : Alike sorting m m') :
  Alike sorting (l ++ m) (l' ++ m')
  := ⟨h.1.append h'.1, fun hs => by rw [h.2 hs, h'.2 hs]⟩

theorem map (h : Alike sorting l l') (f : α → β) :
  Alike sorting (l.map f) (l'.map f)
  := ⟨h.1.map f, fun hs => by rw [h.2 hs]⟩

theorem filter (h : Alike sorting l l') (p : α → Bool) :
  Alike sorting (l.filter p) (l'.filter p)
  := ⟨h.1.filter p, fun hs => by rw [h.2 hs]⟩

theorem filterMap (h : Alike sorting l l') (f : α → Option β) :
  Alike sorting (l.filterMap f) (l'.filterMap f)
  := ⟨h.1.filterMap f, fun hs => by rw [h.2 hs]⟩

end Alike

/-- Lists of groups that are alike stay alike when one row is combined into both, and the
combination fails in both or in neither. -/
theorem Alike.combineInto {sorting : Bool} {groups groups' : List (Key × Row)}
    (alike : Alike sorting groups groups') (distinct : (groups.map (·.1)).Nodup) (key : Key)
    (row : Row) :
  Alike sorting (combineInto key row groups).1 (combineInto key row groups').1
    ∧ (combineInto key row groups).2 = (combineInto key row groups').2
  := by
  obtain ⟨hperm, hfault⟩ := combineInto_perm alike.1 distinct key row
  constructor
  · use hperm
    intro hs
    rw [alike.2 hs]
  · apply hfault

namespace Partition

/-! ### Reading one row -/

/-- A partition of rows that were queued under their own keys. -/
structure Sound (p : Partition) : Prop where
  /-- Details are detail rows under their own keys. -/
  details : ∀ entry ∈ p.details, ∃ parent, entry.1 = .detail parent ∧ entry.2.key = .detail parent
  /-- Groups are group rows under their own keys. -/
  groups : ∀ entry ∈ p.groups, entry.2.key = .group entry.1
  /-- No group is the root, and none is deeper than the plan allows. -/
  nested : ∀ entry ∈ p.groups, entry.1 ≠ .root ∧ entry.1.length ≤ p.plan.groupLevels
  /-- No group has two rows. -/
  distinct : (p.groups.map (·.1)).Nodup
  /-- Every row has one slot for each field. -/
  slots : ∀ row ∈ p.details.map (·.2) ++ p.groups.map (·.2), p.plan.slotFault? row = none

theorem sound_empty (plan : Plan) :
  (empty plan).Sound
  := by
  constructor <;> simp [empty]

/-- A row that has not a slot for each field is refused, and nothing else happens. -/
theorem collect_of_slotFault {p : Partition} {row : Row} {fault : Error}
    (h : p.plan.slotFault? row = some fault) (key : RowKey) :
  p.collect key row = (p, some fault)
  := by
  unfold collect
  rw [h]

/-- A row that is settled as a detail is added to the details. -/
theorem collect_detail {p : Partition} {row : Row} {parent : Key}
    (slots : p.plan.slotFault? row = none) (h : row.settled.key = .detail parent) :
  p.collect row.key row = ({ p with details := p.details ++ [(.detail parent, row.settled)] }, none)
  := by
  unfold collect
  rw [slots]
  cases hkey : row.key with
  | detail parent' =>
      have hsettled : row.settled = row := by simp [Row.settled, hkey]
      rw [hsettled, hkey, RowKey.detail.injEq] at h
      simp only [passThrough]
      rw [hsettled, h]
  | group key =>
      by_cases hroot : key = .root
      · subst hroot
        have hsettled : row.settled = { row with key := .detail .root } := by
          rw [Row.settled, if_pos hkey]
        rw [hsettled, RowKey.detail.injEq] at h
        simp only [Key.isRoot_iff.mpr, if_true, passThrough]
        rw [hsettled, h]
      · rw [Row.settled, hkey, if_neg (by simpa using hroot), hkey] at h
        contradiction

/-- A row that is settled as a group is refused if it is too deep, and is otherwise combined into
the groups. -/
theorem collect_group {p : Partition} {row : Row} {key : Key}
    (slots : p.plan.slotFault? row = none) (h : row.settled.key = .group key) :
  p.collect row.key row
    = if p.plan.groupLevels < key.length then (p, some (.invalidData (.tooDeep key)))
      else ({ p with groups := (combineInto key row p.groups).1 },
        (combineInto key row p.groups).2.map .incompatible)
  := by
  obtain ⟨hsettled, hroot⟩ := Row.settled_of_group h
  rw [hsettled] at h
  have hisRoot : key.isRoot = false := by
    rw [← Bool.not_eq_true, Key.isRoot_iff]
    apply hroot
  unfold collect
  rw [slots, h]
  simp only [hisRoot, Bool.false_eq_true, if_false]

/-- Collecting a row does not change the plan. -/
@[simp]
theorem plan_collect (p : Partition) (key : RowKey) (row : Row) :
  (p.collect key row).1.plan = p.plan
  := by
  unfold collect
  split
  · rfl
  · split
    · rfl
    · split
      · rfl
      · split <;> rfl

/-- An accepted row either goes to the details, or is combined with the rows of its group. -/
theorem collect_accepted {p : Partition} {row : Row} (h : (p.collect row.key row).2 = none) :
  p.plan.slotFault? row = none
    ∧ ((∃ parent, row.settled.key = .detail parent ∧ (p.collect row.key row).1
          = { p with details := p.details ++ [(.detail parent, row.settled)] })
      ∨ ∃ key, row.settled.key = .group key ∧ row.key = .group key ∧ key ≠ .root
          ∧ key.length ≤ p.plan.groupLevels
          ∧ (p.collect row.key row).1 = { p with groups := (combineInto key row p.groups).1 })
  := by
  cases hslots : p.plan.slotFault? row with
  | some fault =>
      rw [collect_of_slotFault hslots] at h
      contradiction
  | none =>
      use rfl
      cases hkey : row.settled.key with
      | detail parent =>
          left
          use parent, rfl
          rw [collect_detail hslots hkey]
      | group key =>
          right
          obtain ⟨hsettled, hroot⟩ := Row.settled_of_group hkey
          rw [collect_group hslots hkey] at h ⊢
          split at h
          · contradiction
          next hshallow =>
            use key, rfl, hsettled ▸ hkey, hroot, Nat.le_of_not_lt hshallow
            rw [if_neg hshallow]

/-- An accepted row goes to the details as it is, or as a detail row at the top if it is queued
under the root, or is combined with what was queued under its key. -/
theorem collect_taken {p : Partition} {key : RowKey} {row : Row}
    (h : (p.collect key row).2 = none) :
  p.plan.slotFault? row = none
    ∧ ((key.isDetail = true ∧ (p.collect key row).1 = p.passThrough key row)
      ∨ (key = .group .root
        ∧ (p.collect key row).1 = p.passThrough (.detail .root) { row with key := .detail .root })
      ∨ ∃ group, key = .group group ∧ group ≠ .root ∧ group.length ≤ p.plan.groupLevels
        ∧ (p.collect key row).1 = { p with groups := (combineInto group row p.groups).1 })
  := by
  cases hslots : p.plan.slotFault? row with
  | some fault =>
      rw [collect_of_slotFault hslots] at h
      contradiction
  | none =>
      use rfl
      unfold collect at h ⊢
      rw [hslots] at h ⊢
      cases key with
      | detail parent =>
          left
          exact ⟨rfl, rfl⟩
      | group group =>
          right
          simp only at h ⊢
          by_cases hroot : group = .root
          · left
            rw [if_pos (Key.isRoot_iff.mpr hroot), hroot]
            exact ⟨rfl, rfl⟩
          · right
            have hisRoot : ¬ group.isRoot = true := Key.isRoot_iff.not.mpr hroot
            rw [if_neg hisRoot] at h ⊢
            split at h
            · contradiction
            next hshallow =>
              rw [if_neg hshallow]
              exact ⟨group, rfl, hroot, Nat.le_of_not_lt hshallow, rfl⟩

/-- Every row has one slot for each field. -/
def Filled (p : Partition) : Prop :=
  ∀ row ∈ p.details.map (·.2) ++ p.groups.map (·.2), p.plan.slotFault? row = none

/-- A row with a slot for each field leaves a partition filled when it is passed through. -/
theorem Filled.passThrough {p : Partition} (filled : p.Filled) {row : Row}
    (slots : p.plan.slotFault? row = none) (key : RowKey) :
  (p.passThrough key row).Filled
  := by
  intro row' hrow'
  simp only [Partition.passThrough, List.map_append, List.append_assoc, List.mem_append] at hrow'
  obtain hold | hnew | hold := hrow'
  · apply filled row' (List.mem_append_left _ hold)
  · obtain rfl := List.mem_singleton.mp hnew
    apply slots
  · apply filled row' (List.mem_append_right _ hold)

/-- A row that is collected without a fault leaves a partition filled. -/
theorem Filled.collect {p : Partition} (filled : p.Filled) {key : RowKey} {row : Row}
    (h : (p.collect key row).2 = none) :
  (p.collect key row).1.Filled
  := by
  obtain ⟨hslots, ⟨-, hp⟩ | ⟨-, hp⟩ | ⟨group, -, -, -, hp⟩⟩ := collect_taken h
  · rw [hp]
    apply filled.passThrough hslots
  · rw [hp]
    apply filled.passThrough
    apply hslots
  · rw [hp]
    intro row' hrow'
    obtain hold | hgroup := List.mem_append.mp hrow'
    · apply filled row' (List.mem_append_left _ hold)
    · obtain ⟨entry, hentry, rfl⟩ := List.mem_map.mp hgroup
      obtain rfl | ⟨present, hmem, -, hlength⟩ := mem_combineInto hentry
      · apply hslots
      · have := filled present (List.mem_append_right _ (List.mem_map.mpr ⟨_, hmem, rfl⟩))
        rw [Plan.slotFault?_eq_none_iff] at this ⊢
        rw [hlength, this]

/-- A row that is collected under its own key without a fault leaves a partition sound. -/
theorem Sound.collect {p : Partition} (sound : p.Sound) {row : Row}
    (h : (p.collect row.key row).2 = none) :
  (p.collect row.key row).1.Sound
  := by
  have hfilled := Filled.collect sound.slots h
  obtain ⟨-, ⟨parent, hkey, hp⟩ | ⟨key, -, hkey, hroot, hshallow, hp⟩⟩ := collect_accepted h
  · rw [hp] at hfilled ⊢
    constructor
    case slots => apply hfilled
    case groups => apply sound.groups
    case nested => apply sound.nested
    case distinct => apply sound.distinct
    case details =>
      intro entry hentry
      obtain hentry | hentry := List.mem_append.mp hentry
      · apply sound.details entry hentry
      · obtain rfl := List.mem_singleton.mp hentry
        use parent
  · rw [hp] at hfilled ⊢
    constructor
    case slots => apply hfilled
    case details => apply sound.details
    case groups =>
      intro entry hentry
      obtain rfl | ⟨present, hmem, hsame, -⟩ := mem_combineInto hentry
      · apply hkey
      · rw [hsame]
        apply sound.groups _ hmem
    case nested =>
      intro entry hentry
      obtain rfl | ⟨present, hmem, -⟩ := mem_combineInto hentry
      · use hroot
      · apply sound.nested _ hmem
    case distinct =>
      rw [map_fst_combineInto]
      split
      · apply sound.distinct
      next hfresh =>
        apply List.Nodup.append sound.distinct (List.nodup_singleton _)
        simpa using hfresh

/-! ### Reading many rows -/

/-- Behind rows that were accepted, reading goes on. -/
theorem read_append_of_none {p p' : Partition} {payload : Payload}
    (h : p.read payload = (p', none)) (payload' : Payload) :
  p.read (payload ++ payload') = p'.read payload'
  := by
  induction payload generalizing p with
  | nil =>
      obtain ⟨rfl, -⟩ := Prod.mk.inj h
      rfl
  | cons entry payload ih =>
      obtain ⟨key, row⟩ := entry
      rw [read] at h
      rw [List.cons_append, read]
      generalize p.collect key row = outcome at h
      obtain ⟨p₁, _ | fault⟩ := outcome
      · apply ih h
      · simp at h

/-- Behind a row that was refused, nothing is read. -/
theorem read_append_of_fault {p p' : Partition} {payload : Payload} {fault : Error}
    (h : p.read payload = (p', some fault)) (payload' : Payload) :
  p.read (payload ++ payload') = (p', some fault)
  := by
  induction payload generalizing p with
  | nil => simp [read] at h
  | cons entry payload ih =>
      obtain ⟨key, row⟩ := entry
      rw [read] at h
      rw [List.cons_append, read]
      generalize p.collect key row = outcome at h
      obtain ⟨p₁, _ | fault⟩ := outcome
      · apply ih h
      · apply h

/-- Reading a payload does not change the plan. -/
@[simp]
theorem plan_read (p : Partition) (payload : Payload) :
  (p.read payload).1.plan = p.plan
  := by
  induction payload generalizing p with
  | nil => rfl
  | cons entry payload ih =>
      obtain ⟨key, row⟩ := entry
      have hplan := p.plan_collect key row
      rw [read]
      generalize p.collect key row = outcome at *
      obtain ⟨p', _ | fault⟩ := outcome
      · rw [← hplan]
        apply ih
      · apply hplan

theorem plan_of_read {p p' : Partition} {payload : Payload} {fault : Option Error}
    (h : p.read payload = (p', fault)) :
  p'.plan = p.plan
  := by
  rw [← plan_read p payload, h]

/-- What an accepted row preserves, accepted rows preserve.  The induction is generalised over what
was read before, which grows at its end. -/
theorem read_induction_payload {P : Partition → Payload → Prop} {p p' : Partition}
    {payload : Payload} (h : p.read payload = (p', none)) (start : P p [])
    (step : ∀ p taken entry, entry ∈ payload → P p taken → (p.collect entry.1 entry.2).2 = none →
      P (p.collect entry.1 entry.2).1 (taken ++ [entry])) :
  P p' payload
  := by
  suffices key : ∀ taken, P p taken → P p' (taken ++ payload) from key [] start
  clear start
  induction payload generalizing p with
  | nil =>
      intro taken htaken
      obtain ⟨rfl, -⟩ := Prod.mk.inj h
      rw [List.append_nil]
      apply htaken
  | cons entry payload ih =>
      intro taken htaken
      have hstep := step p taken entry List.mem_cons_self htaken
      rw [read] at h
      generalize p.collect entry.1 entry.2 = outcome at h hstep
      obtain ⟨p₁, _ | fault⟩ := outcome
      · rw [← List.singleton_append, ← List.append_assoc]
        apply ih h
        · intro p taken entry hentry
          apply step p taken entry (List.mem_cons_of_mem _ hentry)
        · apply hstep rfl
      · simp at h

/-- Partitions that refuse the same rows for the same reasons, and are related as long as they
accept them, read the same rows and stop for the same reason. -/
theorem read_relation {R : Partition → Partition → Prop} {p q : Partition} {payload : Payload}
    (h : R p q)
    (step : ∀ p q entry, entry ∈ payload → R p q →
      (p.collect entry.1 entry.2).2 = (q.collect entry.1 entry.2).2
        ∧ ((p.collect entry.1 entry.2).2 = none →
          R (p.collect entry.1 entry.2).1 (q.collect entry.1 entry.2).1)) :
  (p.read payload).2 = (q.read payload).2
    ∧ ((p.read payload).2 = none → R (p.read payload).1 (q.read payload).1)
  := by
  induction payload generalizing p q with
  | nil => exact ⟨rfl, fun _ => h⟩
  | cons entry payload ih =>
      obtain ⟨hfault, hrelated⟩ := step p q entry List.mem_cons_self h
      rw [read, read]
      generalize p.collect entry.1 entry.2 = outcome at hfault hrelated
      generalize q.collect entry.1 entry.2 = outcome' at hfault hrelated
      obtain ⟨p', fault⟩ := outcome
      obtain ⟨q', fault'⟩ := outcome'
      obtain rfl : fault = fault' := hfault
      cases fault with
      | none =>
          apply ih (hrelated rfl)
          intro p q entry hentry
          apply step p q entry (List.mem_cons_of_mem _ hentry)
      | some fault => simp

/-- What a row accepted under its own key preserves, rows accepted under their own keys
preserve. -/
theorem read_induction {P : Partition → List Row → Prop} {p p' : Partition} {rows : List Row}
    (h : p.read (.ofRows rows) = (p', none)) (start : P p [])
    (step : ∀ p taken row, P p taken → (p.collect row.key row).2 = none →
      P (p.collect row.key row).1 (taken ++ [row])) :
  P p' rows
  := by
  rw [← Payload.map_snd_ofRows rows]
  apply read_induction_payload (P := fun p taken => P p (taken.map (·.2))) h start
  intro p taken entry hentry htaken hcollect
  obtain ⟨row, -, rfl⟩ := List.mem_map.mp hentry
  rw [List.map_append]
  apply step p _ row htaken hcollect

/-- A payload that is read without a fault leaves a partition filled. -/
theorem Filled.read {p p' : Partition} {payload : Payload} (filled : p.Filled)
    (h : p.read payload = (p', none)) :
  p'.Filled
  := read_induction_payload (P := fun p _ => p.Filled) h filled
    fun _ _ _ _ filled => filled.collect

/-- Rows that are read under their own keys without a fault leave a partition sound. -/
theorem Sound.read {p p' : Partition} {rows : List Row} (sound : p.Sound)
    (h : p.read (.ofRows rows) = (p', none)) :
  p'.Sound
  := read_induction (P := fun p _ => p.Sound) h sound fun _ _ _ sound => sound.collect

/-- Details come out as they went in. -/
theorem details_read {p p' : Partition} {rows : List Row}
    (h : p.read (.ofRows rows) = (p', none)) :
  p'.details.map (·.2) = p.details.map (·.2) ++ (rows.map Row.settled).filter (·.key.isDetail)
  := by
  apply read_induction (P := fun q taken =>
    q.details.map (·.2) = p.details.map (·.2) ++ (taken.map Row.settled).filter (·.key.isDetail)) h
  · simp
  · intro q taken row hq hrow
    rw [List.map_append, List.filter_append, ← List.append_assoc, ← hq]
    obtain ⟨-, ⟨parent, hkey, hp⟩ | ⟨key, hkey, -, -, -, hp⟩⟩ := collect_accepted hrow
    · simp [hp, hkey, RowKey.isDetail]
    · simp [hp, hkey, RowKey.isDetail]

/-- The groups are those of the rows that went in. -/
theorem mem_groups_read {p p' : Partition} {rows : List Row}
    (h : p.read (.ofRows rows) = (p', none)) (key : Key) :
  key ∈ p'.groups.map (·.1)
    ↔ key ∈ p.groups.map (·.1) ∨ ∃ row ∈ rows, row.settled.key = .group key
  := by
  apply read_induction (P := fun q taken => key ∈ q.groups.map (·.1)
    ↔ key ∈ p.groups.map (·.1) ∨ ∃ row ∈ taken, row.settled.key = .group key) h
  · simp
  · intro q taken row hq hrow
    simp only [List.mem_append, List.mem_singleton, or_and_right, exists_or, exists_eq_left,
      ← or_assoc, ← hq]
    obtain ⟨-, ⟨parent, hkey, hp⟩ | ⟨key', hkey, -, -, -, hp⟩⟩ := collect_accepted hrow
    · simp [hp, hkey]
    · rw [hp, map_fst_combineInto, hkey, RowKey.group.injEq]
      split
      next hmem =>
        constructor
        · apply Or.inl
        · rintro (h | rfl)
          · apply h
          · apply hmem
      next => rw [List.mem_append, List.mem_singleton, eq_comm (a := key')]

/-- No more rows come out than went in. -/
theorem length_read_payload_le {p p' : Partition} {payload : Payload}
    (h : p.read payload = (p', none)) :
  p'.details.length + p'.groups.length
    ≤ p.details.length + p.groups.length + payload.length
  := by
  apply read_induction_payload (P := fun q taken => q.details.length + q.groups.length
    ≤ p.details.length + p.groups.length + taken.length) h
  · simp
  · intro q taken entry _ hq hcollect
    rw [List.length_append, List.length_singleton]
    obtain ⟨-, ⟨-, hp⟩ | ⟨-, hp⟩ | ⟨group, -, -, -, hp⟩⟩ := collect_taken hcollect
    · simp only [hp, passThrough, List.length_append, List.length_singleton]
      omega
    · simp only [hp, passThrough, List.length_append, List.length_singleton]
      omega
    · have := length_combineInto_le group entry.2 q.groups
      simp only [hp]
      omega

/-- No more rows are held than were read. -/
theorem length_read_le {p p' : Partition} {rows : List Row}
    (h : p.read (.ofRows rows) = (p', none)) :
  p'.details.length + p'.groups.length ≤ p.details.length + p.groups.length + rows.length
  := by
  have := length_read_payload_le h
  rw [Payload.ofRows, List.length_map] at this
  apply this

/-! ### Similar partitions -/

/-- The details that stand beneath a key. -/
def detailsUnder (p : Partition) (parent : Key) : List Row :=
  rowsUnder parent (p.details.map (·.2))

/-- The groups that stand beneath a key. -/
def groupsUnder (p : Partition) (parent : Key) : List (Key × Row) :=
  p.groups.filter fun entry => entry.1.parent = parent

/-- The same details and the same groups beneath each key. -/
structure Similar (p q : Partition) : Prop where
  plan : p.plan = q.plan
  details : ∀ parent, Alike p.plan.hasSort (p.detailsUnder parent) (q.detailsUnder parent)
  groups : ∀ parent, Alike p.plan.hasSort (p.groupsUnder parent) (q.groupsUnder parent)

/-- The groups beneath one key differ in their keys. -/
theorem Sound.distinct_groupsUnder {p : Partition} (sound : p.Sound) (parent : Key) :
  ((p.groupsUnder parent).map (·.1)).Nodup
  := by
  apply List.Nodup.sublist _ sound.distinct
  apply List.Sublist.map
  apply List.filter_sublist

/-- Similar partitions refuse the same rows for the same reasons, and stay similar. -/
theorem Similar.collect {p q : Partition} (similar : p.Similar q) (sound : p.Sound) (row : Row) :
  (p.collect row.key row).2 = (q.collect row.key row).2
    ∧ ((p.collect row.key row).2 = none →
      (p.collect row.key row).1.Similar (q.collect row.key row).1)
  := by
  cases hslots : p.plan.slotFault? row with
  | some fault =>
      have hslots' : q.plan.slotFault? row = some fault := similar.plan ▸ hslots
      rw [collect_of_slotFault hslots, collect_of_slotFault hslots']
      simp
  | none =>
      have hslots' : q.plan.slotFault? row = none := similar.plan ▸ hslots
      cases hkey : row.settled.key with
      | detail parent =>
          rw [collect_detail hslots hkey, collect_detail hslots' hkey]
          use rfl
          intro _
          constructor
          case plan => apply similar.plan
          case groups => apply similar.groups
          case details =>
            intro parent'
            simp only [detailsUnder, List.map_append, rowsUnder_append]
            apply (similar.details parent').append (.refl _ _)
      | group key =>
          rw [collect_group hslots hkey, collect_group hslots' hkey, ← similar.plan]
          split
          · simp
          · obtain ⟨hgroups, hfault⟩ :=
              (similar.groups key.parent).combineInto (sound.distinct_groupsUnder _) key row
            rw [groupsUnder, combineInto_filter (q := fun k => k.parent = key.parent) (by simp),
              groupsUnder, combineInto_filter (q := fun k => k.parent = key.parent) (by simp)]
              at hgroups hfault
            simp only at hgroups hfault
            rw [hfault]
            use rfl
            intro _
            constructor
            case plan => rfl
            case details => apply similar.details
            case groups =>
              intro parent
              by_cases hk : key.parent = parent
              · subst hk
                apply hgroups
              · simp only [groupsUnder]
                rw [filter_combineInto (q := fun k => k.parent = parent) (by simpa using hk),
                  filter_combineInto (q := fun k => k.parent = parent) (by simpa using hk)]
                apply similar.groups parent

/-- Similar partitions refuse the same rows, and stay similar while they read. -/
theorem Similar.read {p q : Partition} (similar : p.Similar q) (sound : p.Sound)
    (rows : List Row) :
  (p.read (.ofRows rows)).2 = (q.read (.ofRows rows)).2
    ∧ ((p.read (.ofRows rows)).2 = none →
      (p.read (.ofRows rows)).1.Similar (q.read (.ofRows rows)).1)
  := by
  refine (read_relation (R := fun p q => p.Sound ∧ p.Similar q) ⟨sound, similar⟩ ?step).imp_right
    fun hread hnone => (hread hnone).2
  case step =>
    rintro p q entry hentry ⟨sound, similar⟩
    obtain ⟨row, -, rfl⟩ := List.mem_map.mp hentry
    obtain ⟨hfault, hsimilar⟩ := similar.collect sound row
    use hfault
    intro hnone
    exact ⟨sound.collect hnone, hsimilar hnone⟩

/-! ### What a partition emits -/

/-- The row of a group together with its key. -/
def asGroup? (row : Row) : Option (Key × Row) :=
  row.key.key?.map fun key => (key, row)

/-- The rows that stand beneath a key, details first. -/
def under (p : Partition) (parent : Key) : List Row :=
  p.detailsUnder parent ++ (p.groupsUnder parent).map (·.2)

/-- The details of a sound partition are detail rows. -/
theorem Sound.isDetail {p : Partition} (sound : p.Sound) {row : Row}
    (h : row ∈ p.details.map (·.2)) :
  row.key.isDetail = true
  := by
  obtain ⟨entry, hentry, rfl⟩ := List.mem_map.mp h
  obtain ⟨parent, -, hkey⟩ := sound.details entry hentry
  rw [hkey]
  rfl

/-- The groups beneath a key are the group rows whose keys have it as their parent. -/
theorem Sound.rowsUnder_groups {p : Partition} (sound : p.Sound) (parent : Key) :
  rowsUnder parent (p.groups.map (·.2)) = (p.groupsUnder parent).map (·.2)
  := by
  rw [rowsUnder, List.filter_map, groupsUnder]
  congr 1
  apply List.filter_congr
  intro entry hentry
  simp [sound.groups entry hentry, RowKey.parent]

theorem flatMap_range_eq {α : Type} {f : ℕ → List α} {n d : ℕ} (hd : d < n)
    (h : ∀ i, i ≠ d → f i = []) :
  (List.range n).flatMap f = f d
  := by
  induction n with
  | zero => omega
  | succ n ih =>
      rw [List.range_succ, List.flatMap_append, List.flatMap_singleton]
      by_cases hn : d = n
      · subst hn
        have hnil : (List.range d).flatMap f = [] := by
          rw [List.flatMap_eq_nil_iff]
          intro i hi
          apply h i
          apply Nat.ne_of_lt (List.mem_range.mp hi)
        rw [hnil, List.nil_append]
      · rw [ih (by omega), h n (Ne.symm hn), List.append_nil]

/-- Emitting takes the details first, then the groups depth by depth. -/
theorem rowsUnder_emit (p : Partition) (parent : Key) :
  rowsUnder parent (p.emit.map (·.2))
    = p.detailsUnder parent
      ++ (List.range p.plan.groupLevels).flatMap fun depth => rowsUnder parent (p.atDepth depth)
  := by
  have hgroups : rowsUnder parent ((List.range p.plan.groupLevels).flatMap p.atDepth)
      = (List.range p.plan.groupLevels).flatMap fun depth => rowsUnder parent (p.atDepth depth) :=
    List.filter_flatMap
  rw [emit, List.map_append, rowsUnder_append, ← hgroups]
  simp [Payload.ofRows, detailsUnder, Function.comp_def]

/-- What is emitted beneath a key are its groups and its details.  The groups beneath one key are
all of one depth, so that they are emitted together. -/
theorem Sound.rowsUnder_emit {p : Partition} (sound : p.Sound) (parent : Key) :
  rowsUnder parent (p.emit.map (·.2)) = p.under parent
  := by
  have hdepth (d : ℕ) : rowsUnder parent (p.atDepth d)
      = if d = parent.length then (p.groupsUnder parent).map (·.2) else [] := by
    rw [atDepth, rowsUnder, List.filter_map, List.filter_filter]
    split
    next hd =>
      subst hd
      rw [groupsUnder]
      congr 1
      apply List.filter_congr
      intro entry hentry
      rw [Function.comp_apply, sound.groups entry hentry, RowKey.parent]
      by_cases hk : entry.1.parent = parent
      · simp [hk, Key.length_of_parent (sound.nested entry hentry).1 hk]
      · simp [hk]
    next hd =>
      rw [List.map_eq_nil_iff, List.filter_eq_nil_iff]
      intro entry hentry
      rw [Function.comp_apply, sound.groups entry hentry, RowKey.parent]
      by_cases hk : entry.1.parent = parent
      · simp [hk, Key.length_of_parent (sound.nested entry hentry).1 hk, Ne.symm hd]
      · simp [hk]
  have hlevels : ((List.range p.plan.groupLevels).flatMap fun d => rowsUnder parent (p.atDepth d))
      = (p.groupsUnder parent).map (·.2) := by
    by_cases hd : parent.length < p.plan.groupLevels
    · rw [flatMap_range_eq hd]
      · apply (hdepth _).trans (if_pos rfl)
      · intro d hne
        apply (hdepth d).trans (if_neg hne)
    · have hnone : p.groupsUnder parent = [] := by
        rw [groupsUnder, List.filter_eq_nil_iff]
        intro entry hentry hk
        obtain ⟨hroot, hshallow⟩ := sound.nested entry hentry
        have := Key.length_of_parent hroot (of_decide_eq_true hk)
        omega
      rw [hnone, List.flatMap_eq_nil_iff.mpr]
      · rfl
      · intro d hd'
        apply (hdepth d).trans (if_neg _)
        have := List.mem_range.mp hd'
        omega
  rw [Partition.rowsUnder_emit, under, hlevels]

/-- Emitting only rearranges the rows. -/
theorem Sound.perm_emit {p : Partition} (sound : p.Sound) :
  (p.emit.map (·.2)).Perm (p.details.map (·.2) ++ p.groups.map (·.2))
  := by
  apply perm_of_rowsUnder
  intro parent
  rw [sound.rowsUnder_emit, rowsUnder_append, sound.rowsUnder_groups]
  apply List.Perm.refl

/-- Group rows that are emitted come from the groups. -/
theorem Sound.mem_groups_of_mem_emit {p : Partition} (sound : p.Sound) {key : Key} {row : Row}
    (h : row ∈ p.emit.map (·.2)) (hkey : row.key = .group key) :
  (key, row) ∈ p.groups
  := by
  obtain hdetail | hgroup := List.mem_append.mp (sound.perm_emit.subset h)
  · have := sound.isDetail hdetail
    rw [hkey] at this
    contradiction
  · obtain ⟨entry, hentry, rfl⟩ := List.mem_map.mp hgroup
    obtain rfl : entry.1 = key := by
      rw [sound.groups entry hentry, RowKey.group.injEq] at hkey
      apply hkey
    apply hentry

end Partition

end Collate
