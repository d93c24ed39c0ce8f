import Collate.Proofs.Acceptance
import Collate.Proofs.WellFormed

/-!
# For which row a payload is refused

A payload is refused for the first of its rows that offends: a row that has not one slot for each
field, a row of a group deeper than the plan groups, or a row that has in some field an accumulator
of another kind than a row of its group that is held or came before it.  The error says which of
these it is, the first that applies, and names the lowest field in which kinds differ.
-/

namespace Collate

namespace Accumulator

/-- What an accumulator gathers. -/
inductive Kind where
  | value
  | count
  | sum
  | min
  | max
  deriving DecidableEq

def kind : Accumulator → Kind
  | .value _ => .value
  | .count _ => .count
  | .sum _ => .sum
  | .min _ => .min
  | .max _ => .max

/-- Accumulators are combined exactly if they are of one kind, and keep it. -/
theorem combine_cases (a b : Accumulator) :
  (a.kind = b.kind ∧ ∃ c, a.combine b = .ok c ∧ c.kind = a.kind)
    ∨ (a.kind ≠ b.kind ∧ a.combine b = .error b)
  := by
  cases a <;> cases b <;> simp [combine, kind]

end Accumulator

namespace Slot

/-- The slot has an accumulator of a kind. -/
def HasKind (slot : Slot) (kind : Accumulator.Kind) : Prop :=
  ∃ a, slot = some a ∧ a.kind = kind

theorem not_hasKind_none (kind : Accumulator.Kind) :
  ¬ HasKind none kind
  := by
  simp [HasKind]

theorem hasKind_some_iff {a : Accumulator} {kind : Accumulator.Kind} :
  HasKind (some a) kind ↔ a.kind = kind
  := by
  simp [HasKind]

/-- Slots cannot be combined exactly if both are present, and differ in kind. -/
theorem combine?_eq_none_iff {a b : Slot} :
  combine? a b = none ↔ ∃ kind kind', HasKind a kind ∧ HasKind b kind' ∧ kind ≠ kind'
  := by
  cases a with
  | none => simp [not_hasKind_none]
  | some a =>
      cases b with
      | none => simp [not_hasKind_none]
      | some b =>
          simp only [hasKind_some_iff, exists_and_left, exists_eq_left']
          obtain ⟨hkind, c, hc, -⟩ | ⟨hkind, hc⟩ := a.combine_cases b
          · simp [combine?, hc, hkind]
          · simp [combine?, hc, hkind]

theorem hasKind_combine? {a b c : Slot} (h : combine? a b = some c) (kind : Accumulator.Kind) :
  HasKind c kind ↔ HasKind a kind ∨ HasKind b kind
  := by
  cases a with
  | none =>
      obtain rfl : b = c := by simpa using h
      simp [not_hasKind_none]
  | some a =>
      cases b with
      | none =>
          obtain rfl : some a = c := by simpa using h
          simp [not_hasKind_none]
      | some b =>
          obtain ⟨hkind, c', hc, hsame⟩ | ⟨-, hc⟩ := a.combine_cases b
          · obtain rfl : some c' = c := by simpa [combine?, hc] using h
            simp only [hasKind_some_iff, hsame, ← hkind, or_self]
          · simp [combine?, hc] at h

/-- What slots are joined to has the kinds that the slots have. -/
theorem hasKind_gather? {slots : List Slot} {joined : Slot} (h : gather? slots = some joined)
    (kind : Accumulator.Kind) :
  HasKind joined kind ↔ ∃ slot ∈ slots, HasKind slot kind
  := by
  induction slots using List.reverseRecOn generalizing joined with
  | nil =>
      obtain rfl : none = joined := by simpa [gather?] using h
      simp [not_hasKind_none]
  | append_singleton slots slot ih =>
      rw [gather?_concat, Option.bind_eq_some_iff] at h
      obtain ⟨joined', hjoined', hc⟩ := h
      rw [hasKind_combine? hc, ih hjoined']
      simp [or_and_right, exists_or]

/-- Combining stops at the first field in which two slots cannot be combined. -/
theorem fault_combineAll_iff {field field' : ℕ} {as bs : List Slot} :
  (combineAll field as bs).2 = some field'
    ↔ ∃ i, field' = field + i ∧ IsLeast {i | combine? as[i]?.join bs[i]?.join = none} i
  := by
  fun_induction combineAll field as bs with
  | case1 field a as b bs hnone =>
      have hleast : IsLeast {i | combine? (a :: as)[i]?.join (b :: bs)[i]?.join = none} 0 := by
        use hnone
        intro i _
        apply Nat.zero_le
      constructor
      · intro h
        use 0, (Option.some.inj h).symm
      · rintro ⟨i, rfl, hi⟩
        rw [hi.unique hleast]
        rfl
  | case2 field a as b bs c hc rest fault hrest ih =>
      rw [hrest] at ih
      apply ih.trans
      constructor
      · rintro ⟨i, rfl, hi, hlower⟩
        use i + 1, by omega, hi
        intro j hj
        cases j with
        | zero => simp [hc] at hj
        | succ j => exact Nat.succ_le_succ (hlower hj)
      · rintro ⟨i, rfl, hi, hlower⟩
        cases i with
        | zero => simp [hc] at hi
        | succ i =>
            use i, by omega, hi
            intro j hj
            apply Nat.le_of_succ_le_succ
            apply hlower hj
  | case3 field as bs hends =>
      have hjoin (i : ℕ) : combine? as[i]?.join bs[i]?.join ≠ none := by
        cases as with
        | nil => simp
        | cons a as =>
            cases bs with
            | nil => simp
            | cons b bs => exact (hends _ _ _ _ rfl rfl).elim
      simp only [reduceCtorEq, false_iff, not_exists, not_and]
      intro i _ hi
      apply hjoin i hi.1

end Slot

/-! ### Rows that offend -/

/-- The row belongs to the group with a key; the empty key has no group of its own. -/
def Row.BelongsTo (row : Row) (key : Key) : Prop :=
  row.key = .group key ∧ key ≠ .root

theorem Row.belongsTo_iff {row : Row} {key : Key} :
  row.BelongsTo key ↔ row.settled.key = .group key
  := by
  constructor
  · rintro ⟨hkey, hroot⟩
    rw [Row.settled_eq_self (by simpa [hkey] using hroot), hkey]
  · intro h
    obtain ⟨hsettled, hroot⟩ := Row.settled_of_group h
    rw [hsettled] at h
    exact ⟨h, hroot⟩

/-- The key is longer than the deepest depth at which the plan groups admits. -/
def Plan.TooDeep (plan : Plan) (key : Key) : Prop :=
  ∀ deepest, plan.maxGroupDepth = some deepest → deepest + 1 < key.length

theorem Plan.tooDeep_iff {plan : Plan} {key : Key} (h : key ≠ .root) :
  plan.TooDeep key ↔ plan.groupLevels < key.length
  := by
  have hlength := Key.length_of_parent h rfl
  rw [TooDeep, groupLevels]
  cases plan.maxGroupDepth with
  | none =>
      simp only [reduceCtorEq, false_imp_iff, implies_true, true_iff]
      omega
  | some deepest => simp

/-- In a field, the row has an accumulator of another kind than a row of its group among those that
came. -/
def Row.Clashes (came : List Row) (row : Row) (field : ℕ) : Prop :=
  ∃ key, row.BelongsTo key ∧ ∃ other ∈ came, other.BelongsTo key ∧ ∃ kind kind',
    (other.slot? field).HasKind kind ∧ (row.slot? field).HasKind kind' ∧ kind ≠ kind'

/-- A row that is refused behind those that came. -/
def Plan.Offends (plan : Plan) (came : List Row) (row : Row) : Prop :=
  row.slots.length ≠ plan.fieldCount
    ∨ (∃ key, row.BelongsTo key ∧ plan.TooDeep key)
    ∨ ∃ field, row.Clashes came field

/-- The error for which a row is refused. -/
inductive Plan.Offence (plan : Plan) (came : List Row) (row : Row) : Error → Prop where
  | slotCount (miscounted : row.slots.length ≠ plan.fieldCount) :
    Offence plan came row (.invalidData (.slotCount row.slots.length plan.fieldCount))
  | tooDeep {key : Key} (counted : row.slots.length = plan.fieldCount)
    (own : row.BelongsTo key) (deep : plan.TooDeep key) :
    Offence plan came row (.invalidData (.tooDeep key))
  | incompatible {field : ℕ} (counted : row.slots.length = plan.fieldCount)
    (shallow : ∀ key, row.BelongsTo key → ¬ plan.TooDeep key)
    (lowest : IsLeast {field | row.Clashes came field} field) :
    Offence plan came row (.incompatible field)

/-- There is an error for every row that offends, and for no other. -/
theorem Plan.exists_offence_iff {plan : Plan} {came : List Row} {row : Row} :
  (∃ fault, plan.Offence came row fault) ↔ plan.Offends came row
  := by
  constructor
  · rintro ⟨fault, offence⟩
    cases offence with
    | slotCount miscounted => exact .inl miscounted
    | tooDeep _ own deep => exact .inr (.inl ⟨_, own, deep⟩)
    | incompatible _ _ lowest => exact .inr (.inr ⟨_, lowest.1⟩)
  · intro offends
    by_cases counted : row.slots.length = plan.fieldCount
    · by_cases deep : ∃ key, row.BelongsTo key ∧ plan.TooDeep key
      · obtain ⟨key, own, deep⟩ := deep
        exact ⟨_, .tooDeep counted own deep⟩
      · obtain ⟨field, hclash⟩ : ∃ field, row.Clashes came field := by
          simpa [Offends, counted, deep] using offends
        classical
        have hex : ∃ field, row.Clashes came field := ⟨field, hclash⟩
        have lowest : IsLeast {field | row.Clashes came field} (Nat.find hex) :=
          ⟨Nat.find_spec hex, fun _ => Nat.find_min' hex⟩
        push Not at deep
        exact ⟨_, .incompatible counted deep lowest⟩
    · exact ⟨_, .slotCount counted⟩

/-- The error for which some rows are refused behind those that came: that of the first row which
offends. -/
def Plan.FirstOffence (plan : Plan) (came rows : List Row) (fault : Error) : Prop :=
  ∃ i row, rows[i]? = some row ∧ plan.Offence (came ++ rows.take i) row fault
    ∧ ∀ j < i, ∀ earlier, rows[j]? = some earlier → ¬ plan.Offends (came ++ rows.take j) earlier

theorem Plan.firstOffence_cons_iff {plan : Plan} {came rows : List Row} {row : Row}
    {fault : Error} :
  plan.FirstOffence came (row :: rows) fault
    ↔ plan.Offence came row fault
      ∨ (¬ plan.Offends came row ∧ plan.FirstOffence (came ++ [row]) rows fault)
  := by
  have htake (i : ℕ) : came ++ (row :: rows).take (i + 1) = came ++ [row] ++ rows.take i := by
    rw [List.take_succ_cons, List.append_cons]
  constructor
  · rintro ⟨i, row', hrow', offence, hfirst⟩
    cases i with
    | zero =>
        left
        obtain rfl : row = row' := by simpa using hrow'
        simpa using offence
    | succ i =>
        right
        use by simpa using hfirst 0 (Nat.zero_lt_succ i) row rfl
        rw [htake] at offence
        refine ⟨i, row', hrow', offence, ?_⟩
        intro j hj earlier hearlier
        rw [← htake]
        apply hfirst (j + 1) (Nat.succ_lt_succ hj) earlier hearlier
  · rintro (offence | ⟨hfine, i, row', hrow', offence, hfirst⟩)
    · refine ⟨0, row, rfl, by simpa using offence, ?_⟩
      intro j hj
      contradiction
    · rw [← htake] at offence
      refine ⟨i + 1, row', hrow', offence, ?_⟩
      intro j hj earlier hearlier
      cases j with
      | zero =>
          obtain rfl : row = earlier := by simpa using hearlier
          simpa using hfine
      | succ j =>
          rw [htake]
          apply hfirst j (Nat.lt_of_succ_lt_succ hj) earlier hearlier

/-- Some rows have a first one that offends exactly if any of them offends. -/
theorem Plan.exists_firstOffence_iff {plan : Plan} {came rows : List Row} :
  (∃ fault, plan.FirstOffence came rows fault)
    ↔ ∃ i row, rows[i]? = some row ∧ plan.Offends (came ++ rows.take i) row
  := by
  constructor
  · rintro ⟨fault, i, row, hrow, offence, -⟩
    exact ⟨i, row, hrow, Plan.exists_offence_iff.mp ⟨fault, offence⟩⟩
  · intro hex
    classical
    obtain ⟨row, hrow, offends⟩ := Nat.find_spec hex
    obtain ⟨fault, offence⟩ := Plan.exists_offence_iff.mpr offends
    refine ⟨fault, Nat.find hex, row, hrow, offence, ?_⟩
    intro j hj earlier hearlier hoffends
    apply Nat.find_min hex hj
    exact ⟨earlier, hearlier, hoffends⟩

namespace Partition

variable {p : Partition} {came : List Row}

/-- A row of a group is refused for the lowest field in which it clashes with what came. -/
theorem Gathers.fault_combineInto_iff (gathers : p.Gathers fun key => rowsOf key came)
    (sound : p.Sound) {key : Key} {row : Row} (own : row.BelongsTo key) {field : ℕ} :
  (combineInto key row p.groups).2 = some field ↔ IsLeast {field | row.Clashes came field} field
  := by
  have hclash (field : ℕ) : row.Clashes came field ↔ ∃ kind kind',
      (∃ slot ∈ (rowsOf key came).map (·.slot? field), slot.HasKind kind)
        ∧ (row.slot? field).HasKind kind' ∧ kind ≠ kind' := by
    constructor
    · rintro ⟨key', own', other, hother, hother', kind, kind', hkind, hkind', hne⟩
      obtain rfl : key = key' := by simpa [own.1] using own'.1
      exact ⟨kind, kind', ⟨_, List.mem_map_of_mem (by simpa [rowsOf, hother'.1] using hother),
        hkind⟩, hkind', hne⟩
    · rintro ⟨kind, kind', ⟨slot, hslot, hkind⟩, hkind', hne⟩
      obtain ⟨other, hother, rfl⟩ := List.mem_map.mp hslot
      obtain ⟨hmem, hkey⟩ := List.mem_filter.mp hother
      exact ⟨key, own, other, hmem, ⟨of_decide_eq_true hkey, own.2⟩, kind, kind', hkind, hkind',
        hne⟩
  by_cases hmem : key ∈ p.groups.map (·.1)
  · obtain ⟨⟨_, present⟩, hentry, rfl⟩ := List.mem_map.mp hmem
    have hset : {field | row.Clashes came field}
        = {i | Slot.combine? present.slots[i]?.join row.slots[i]?.join = none} := by
      ext field
      have hgather := Slot.gather?_eq_some_iff.mpr (gathers.joined _ hentry field)
      simp only [Set.mem_ofPred_eq, hclash, ← Slot.hasKind_gather? hgather]
      apply Slot.combine?_eq_none_iff.symm
    rw [fault_combineInto_of_mem sound.distinct hentry, Slot.fault_combineAll_iff, hset]
    simp
  · rw [combineInto_of_notMem row hmem]
    simp only [reduceCtorEq, false_iff]
    intro lowest
    obtain ⟨_, _, ⟨slot, hslot, -⟩, -⟩ := (hclash field).mp lowest.1
    rw [gathers.fresh key own.2 hmem] at hslot
    simp at hslot

/-- A row is refused for what it offends against, and only for that. -/
theorem Gathers.fault_collect_iff (gathers : p.Gathers fun key => rowsOf key came)
    (sound : p.Sound) {row : Row} {fault : Error} :
  (p.collect row.key row).2 = some fault ↔ p.plan.Offence came row fault
  := by
  cases hslots : p.plan.slotFault? row with
  | some fault' =>
      have hcount : row.slots.length ≠ p.plan.fieldCount := by
        intro h
        rw [Plan.slotFault?_eq_none_iff.mpr h] at hslots
        contradiction
      have hfault' : fault' = .invalidData (.slotCount row.slots.length p.plan.fieldCount) := by
        rw [Plan.slotFault?, if_neg hcount] at hslots
        apply (Option.some.inj hslots).symm
      rw [collect_of_slotFault hslots, Option.some.injEq, hfault']
      constructor
      · rintro rfl
        apply Plan.Offence.slotCount hcount
      · intro offence
        cases offence with
        | slotCount => rfl
        | tooDeep counted => contradiction
        | incompatible counted => contradiction
  | none =>
      have counted := Plan.slotFault?_eq_none_iff.mp hslots
      cases hkey : row.settled.key with
      | detail parent =>
          have hnone {key : Key} : ¬ row.BelongsTo key := by
            rw [Row.belongsTo_iff, hkey]
            simp
          rw [collect_detail hslots hkey]
          simp only [reduceCtorEq, false_iff]
          intro offence
          cases offence with
          | slotCount miscounted => contradiction
          | tooDeep _ own => apply hnone own
          | incompatible _ _ lowest =>
              obtain ⟨key, own, -⟩ := lowest.1
              apply hnone own
      | group key =>
          have own : row.BelongsTo key := Row.belongsTo_iff.mpr hkey
          have hunique {key' : Key} (own' : row.BelongsTo key') : key' = key := by
            simpa [own.1, eq_comm] using own'.1
          have hdeep : p.plan.TooDeep key ↔ _ := Plan.tooDeep_iff own.2
          rw [collect_group hslots hkey]
          by_cases deep : p.plan.groupLevels < key.length
          · rw [if_pos deep, Option.some.injEq]
            constructor
            · rintro rfl
              apply Plan.Offence.tooDeep counted own (hdeep.mpr deep)
            · intro offence
              cases offence with
              | slotCount miscounted => contradiction
              | tooDeep _ own' => rw [hunique own']
              | incompatible _ shallow => exact absurd (hdeep.mpr deep) (shallow key own)
          · rw [if_neg deep, Option.map_eq_some_iff]
            constructor
            · rintro ⟨field, hfield, rfl⟩
              apply Plan.Offence.incompatible counted
              · intro key' own'
                rw [hunique own', hdeep]
                apply deep
              · apply (gathers.fault_combineInto_iff sound own).mp hfield
            · intro offence
              cases offence with
              | slotCount miscounted => contradiction
              | tooDeep _ own' deep' =>
                  rw [hunique own', hdeep] at deep'
                  contradiction
              | incompatible _ _ lowest =>
                  exact ⟨_, (gathers.fault_combineInto_iff sound own).mpr lowest, rfl⟩

/-- Rows are refused for the first of them that offends. -/
theorem Gathers.fault_read_iff (gathers : p.Gathers fun key => rowsOf key came) (sound : p.Sound)
    {rows : List Row} {fault : Error} :
  (p.read (.ofRows rows)).2 = some fault ↔ p.plan.FirstOffence came rows fault
  := by
  induction rows generalizing p came with
  | nil => simp [Payload.ofRows, Partition.read, Plan.FirstOffence]
  | cons row rows ih =>
      have hstep {fault : Error} :
          (p.collect row.key row).2 = some fault ↔ p.plan.Offence came row fault :=
        gathers.fault_collect_iff sound
      rw [Payload.ofRows, List.map_cons, Partition.read, Plan.firstOffence_cons_iff]
      rcases hp : p.collect row.key row with ⟨p', _ | fault'⟩
      · have haccepted : (p.collect row.key row).2 = none := by rw [hp]
        have hgathers := gathers.collect sound haccepted
        simp only [← rowsOf_append] at hgathers
        have hrest := ih hgathers (sound.collect haccepted)
        rw [plan_collect, hp] at hrest
        have hnone {fault : Error} : ¬ p.plan.Offence came row fault := by
          rw [← hstep, haccepted]
          simp
        have hfine : ¬ p.plan.Offends came row := by
          rw [← Plan.exists_offence_iff]
          rintro ⟨fault, offence⟩
          apply hnone offence
        apply hrest.trans
        simp [hnone, hfine]
      · have hoffence : p.plan.Offence came row fault' := by
          rw [← hstep, hp]
        have hoffends : p.plan.Offends came row := Plan.exists_offence_iff.mp ⟨fault', hoffence⟩
        have hunique : p.plan.Offence came row fault ↔ fault' = fault := by
          rw [← hstep, hp, Option.some.injEq]
        simp [hunique, hoffends]

end Partition

namespace Table

/-- Whatever an idle table has merged of rows under their own keys, it reads a payload as if what it
holds had come just before. -/
theorem Intact.fault_add_iff {t : Table} (intact : t.Intact) (idle : t.Idle) {rows : List Row}
    {fault : Error} :
  (t.add (.ofRows rows) false).2 = some fault
    ↔ t.plan.FirstOffence (t.retained.map (·.2)) rows fault
  := by
  have hread := Partition.read_settled intact.settled
  have hgathers := (Partition.gathers_empty t.plan).read (Partition.sound_empty t.plan) hread
  simp only [List.nil_append] at hgathers
  have hretained : t.retained.map (·.2) = t.snapshot.rowsByParent.rows := by
    rw [intact.retained, Snapshot.payload, Payload.map_snd_ofRows]
  have hmerge : (t.merge (.ofRows rows)).2 = (t.held.read (.ofRows rows)).2 := by
    rcases h : t.held.read (.ofRows rows) with ⟨p, _ | fault⟩
    · obtain ⟨m, hmerge, -⟩ := intact.merge_of_read h
      rw [hmerge]
    · rw [intact.merge_of_fault h]
  rw [idle.add_eq, hmerge, hretained]
  apply hgathers.fault_read_iff intact.sound_held

variable {plan : Plan} {maxResults : Option Sizes} {storeSize : Sizes} {events : List Event}
  {t : Table}

/-- A table on which nobody works, whatever it has merged of rows under their own keys, refuses a
payload exactly if some row has not one slot for each field, belongs to a group deeper than the plan
groups, or has in some field an accumulator of another kind than a row of its group that is retained
or comes before it in the payload.  The error is that of the first such row. -/
theorem add_refused_iff (path : Path (ofPlan plan maxResults storeSize) events t)
    (own : ∀ payload ∈ arrivals events, payload.OwnKeyed) (idle : t.Idle) (rows : List Row) :
  let came (i : ℕ) : List Row := t.retained.map (·.2) ++ rows.take i
  ((t.add (.ofRows rows) false).2 ≠ none
      ↔ ∃ i row, rows[i]? = some row ∧ plan.Offends (came i) row)
    ∧ ∀ fault, (t.add (.ofRows rows) false).2 = some fault
      ↔ ∃ i row, rows[i]? = some row ∧ plan.Offence (came i) row fault
        ∧ ∀ j < i, ∀ earlier, rows[j]? = some earlier → ¬ plan.Offends (came j) earlier
  := by
  intro came
  have hfault (fault : Error) : (t.add (.ofRows rows) false).2 = some fault
      ↔ plan.FirstOffence (t.retained.map (·.2)) rows fault := by
    rw [(path.intact own).fault_add_iff idle, path.plan_eq.1]
    rfl
  use ?refused, hfault
  case refused =>
    rw [← Plan.exists_firstOffence_iff, Option.ne_none_iff_exists']
    apply exists_congr hfault

/-- A table that retains a group with an empty slot. -/
def halfKnown : List Call :=
  let a : Key := ⟨[.text "a"]⟩
  let quiet : List Poll := [.mk [] false, .mk [] false, .mk [] false]
  [.add (.ofRows [⟨.group a, [some (.count 1), none]⟩, ⟨.detail a, [none, none]⟩]) quiet false]

/-- Rows of which the empty slot takes a kind on the way, and details that clash with nothing,
before three rows that offend. -/
def mixedRows : List Row :=
  let a : Key := ⟨[.text "a"]⟩
  [⟨.detail a, [some (.sum ⟨0⟩), none]⟩, ⟨.group .root, [some (.count 1), none]⟩,
    ⟨.group a, [none, some (.min .null)]⟩, ⟨.group .root, [some (.max .null), none]⟩,
    ⟨.group a, [some (.count 2), some (.max .null)]⟩, ⟨.group (a.child .null), [none, none]⟩,
    ⟨.group a, [none]⟩]

theorem add_refused_iff_mixedRows :
  let plan : Plan := ⟨2, some 0, some 1, []⟩
  let t := ((ofPlan plan none .unbounded).runAll halfKnown).1
  let came (i : ℕ) : List Row := t.retained.map (·.2) ++ mixedRows.take i
  (t.add (.ofRows mixedRows) false).2 = some (.incompatible 1)
    ∧ ∃ i row, mixedRows[i]? = some row ∧ plan.Offence (came i) row (.incompatible 1)
      ∧ ∀ j < i, ∀ earlier, mixedRows[j]? = some earlier → ¬ plan.Offends (came j) earlier
  := by
  intro plan t came
  let fresh := ofPlan plan none .unbounded
  have path : Path fresh (events (fresh.traceAll halfKnown)) t := path_trace.2.1 fresh halfKnown
  have own : ∀ payload ∈ arrivals (events (fresh.traceAll halfKnown)), payload.OwnKeyed := by
    have brought : arrivals (events (fresh.traceAll halfKnown))
        = [.ofRows [⟨.group ⟨[.text "a"]⟩, [some (.count 1), none]⟩,
          ⟨.detail ⟨[.text "a"]⟩, [none, none]⟩]] := by decide +kernel
    rw [brought]
    intro payload hpayload
    obtain rfl := List.mem_singleton.mp hpayload
    apply Payload.ownKeyed_ofRows
  have idle : t.Idle := by constructor <;> decide +kernel
  have refused : (t.add (.ofRows mixedRows) false).2 = some (.incompatible 1) := by decide +kernel
  use refused
  apply ((add_refused_iff path own idle mixedRows).2 _).mp refused

/-- Rows under the empty key are taken although they differ in kind: they have a key in common, but
no group. -/
theorem add_accepts_emptyKeys :
  let t := ofPlan ⟨1, some 0, some 1, []⟩ none .unbounded
  let counted : Row := ⟨.group .root, [some (.count 1)]⟩
  let greatest : Row := ⟨.group .root, [some (.max .null)]⟩
  t.Idle
    ∧ counted.key.key? = some .root
    ∧ greatest.key.key? = some .root
    ∧ (counted.slot? 0).HasKind .count
    ∧ (greatest.slot? 0).HasKind .max
    ∧ Accumulator.Kind.count ≠ .max
    ∧ (t.add (.ofRows [counted, greatest]) false).2 = none
  := by
  intro t counted greatest
  exact ⟨idle_ofPlan _ none .unbounded, rfl, rfl, ⟨_, rfl, rfl⟩, ⟨_, rfl, rfl⟩, by decide,
    by decide +kernel⟩

end Table

end Collate
