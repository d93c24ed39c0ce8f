import Collate.Proofs.Grouping

/-!
# What a refused row leaves behind

A row of a group is combined field by field, and where it is refused for one field the fields before
it have been combined already.  A read that stops at such a row therefore comes to the same as one
that goes on to its end and finds, in place of the row and of all that stands behind it, the row cut
off before that field.  Rows that are refused for the number of their slots or the depth of their
group leave nothing behind.
-/

namespace Collate

/-- The row without its accumulators from a field on. -/
def Row.upTo (row : Row) (field : ℕ) : Row :=
  { row with slots := row.slots.take field ++ (row.slots.drop field).map fun _ => none }

namespace Slot

@[simp]
theorem combineAll_map_none (field : ℕ) (as bs : List Slot) :
  combineAll field as (bs.map fun _ => none) = (as, none)
  := by
  induction as generalizing field bs with
  | nil => rfl
  | cons a as ih =>
      cases bs with
      | nil => rfl
      | cons b bs =>
          rw [List.map_cons, combineAll, combine?_none_right]
          simp only [ih]

/-- Combining up to the field in which it stops is combining what stands before it. -/
theorem combineAll_upTo {field field' : ℕ} {as bs : List Slot}
    (h : (combineAll field as bs).2 = some field') :
  ∃ i, field' = field + i
    ∧ combineAll field as (bs.take i ++ (bs.drop i).map fun _ => none)
      = ((combineAll field as bs).1, none)
  := by
  fun_induction combineAll field as bs with
  | case1 field a as b bs hnone =>
      use 0, (Option.some.inj h).symm
      apply combineAll_map_none field (a :: as) (b :: bs)
  | case2 field a as b bs c hc cs fault hrest ih =>
      rw [hrest] at ih
      obtain ⟨i, rfl, hi⟩ := ih h
      use i + 1, by omega
      simp only [List.take_succ_cons, List.drop_succ_cons, List.cons_append, combineAll, hc, hi]
  | case3 field as bs hends => contradiction

/-- Combining up to the field in which it stops changes nothing exactly if it changes nothing in
each field before it. -/
theorem combineAll_eq_self_iff {field field' : ℕ} {as bs : List Slot}
    (h : (combineAll field as bs).2 = some field') :
  (combineAll field as bs).1 = as
    ↔ ∀ i, field + i < field' → combine? as[i]?.join bs[i]?.join = some as[i]?.join
  := by
  fun_induction combineAll field as bs with
  | case1 field a as b bs hnone =>
      obtain rfl := Option.some.inj h
      simp
  | case2 field a as b bs c hc cs fault hrest ih =>
      rw [hrest] at ih
      have hlt : field < field' := by
        obtain ⟨i, rfl, -⟩ := combineAll_upTo (by rw [hrest]; exact h)
        omega
      rw [List.cons_eq_cons, ih h]
      constructor
      · rintro ⟨rfl, hlater⟩ i hi
        cases i with
        | zero => exact hc
        | succ i => apply hlater i (by omega)
      · intro hall
        constructor
        · simpa [hc] using hall 0 hlt
        · intro i hi
          apply hall (i + 1) (by omega)
  | case3 field as bs hends => contradiction

end Slot

section

variable {key : Key} {row : Row} {groups : List (Key × Row)} {field : ℕ}

theorem combineInto_upTo (h : (combineInto key row groups).2 = some field) :
  combineInto key (row.upTo field) groups = ((combineInto key row groups).1, none)
  := by
  induction groups with
  | nil => contradiction
  | cons entry groups ih =>
      rw [combineInto] at h ⊢
      rw [combineInto]
      split
      next hk =>
        rw [if_pos hk] at h
        obtain ⟨i, hi, hcombine⟩ := Slot.combineAll_upTo h
        obtain rfl : field = i := by omega
        simp only [Row.upTo, hcombine]
      next hk =>
        rw [if_neg hk] at h
        simp only [ih h]

theorem combineInto_eq_self_iff (h : (combineInto key row groups).2 = some field) :
  (combineInto key row groups).1 = groups ↔ ∀ present, groups.lookup key = some present →
    ∀ i < field, Slot.combine? (present.slot? i) (row.slot? i) = some (present.slot? i)
  := by
  induction groups with
  | nil => contradiction
  | cons entry groups ih =>
      obtain ⟨k, present⟩ := entry
      rw [combineInto] at h ⊢
      by_cases hk : k = key
      · subst hk
        rw [if_pos rfl] at h ⊢
        have hself := Slot.combineAll_eq_self_iff h
        simp only [Nat.zero_add] at hself
        simp only [List.lookup_cons_self, Option.some.injEq, forall_eq', List.cons.injEq,
          Prod.mk.injEq, true_and, and_true]
        apply Iff.trans _ hself
        obtain ⟨own, slots⟩ := present
        simp only [Row.mk.injEq, true_and]
      · rw [if_neg hk] at h ⊢
        rw [List.lookup_cons, beq_false_of_ne (Ne.symm hk), List.cons_eq_cons]
        simpa using ih h

end

namespace Partition

variable {p : Partition} {key : RowKey} {row : Row}

/-! ### Rows that are refused -/

/-- A row is refused for a field only when it is combined with the row of its group. -/
theorem collect_incompatible {field : ℕ} (h : (p.collect key row).2 = some (.incompatible field)) :
  ∃ group, key = .group group ∧ p.plan.slotFault? row = none ∧ group.isRoot = false
    ∧ ¬ p.plan.groupLevels < group.length
    ∧ (combineInto group row p.groups).2 = some field
    ∧ (p.collect key row).1 = { p with groups := (combineInto group row p.groups).1 }
  := by
  unfold collect at h ⊢
  cases hslots : p.plan.slotFault? row with
  | some fault =>
      have hfault : fault ≠ .incompatible field := by
        rintro rfl
        simp [Plan.slotFault?] at hslots
      rw [hslots, Option.some.injEq] at h
      contradiction
  | none =>
      rw [hslots] at h
      cases key with
      | detail parent => contradiction
      | group group =>
          simp only at h ⊢
          split at h
          next => contradiction
          next hroot =>
            split at h
            next => simp at h
            next hdeep =>
              refine ⟨group, rfl, trivial, by simpa using hroot, hdeep, ?_, ?_⟩
              · simpa using h
              · rw [if_neg hroot, if_neg hdeep]

/-- A row that is refused for the number of its slots or the depth of its group changes nothing. -/
theorem collect_eq_self {fault : Error} (h : (p.collect key row).2 = some fault)
    (other : ∀ field, fault ≠ .incompatible field) :
  (p.collect key row).1 = p
  := by
  unfold collect at h ⊢
  split
  next => rfl
  next hslots =>
    rw [hslots] at h
    cases key with
    | detail parent => contradiction
    | group group =>
        simp only at h ⊢
        split
        next hroot =>
          rw [if_pos hroot] at h
          contradiction
        next hroot =>
          rw [if_neg hroot] at h
          split
          next => rfl
          next hdeep =>
            rw [if_neg hdeep, Option.map_eq_some_iff] at h
            obtain ⟨field, -, rfl⟩ := h
            exact absurd rfl (other field)

/-- A row that is refused for a field leaves behind what it has in the fields before. -/
theorem collect_upTo {field : ℕ} (h : (p.collect key row).2 = some (.incompatible field)) :
  p.collect key (row.upTo field) = ((p.collect key row).1, none)
  := by
  obtain ⟨group, rfl, hslots, hroot, hdeep, hfault, hp⟩ := collect_incompatible h
  have hslots' : p.plan.slotFault? (row.upTo field) = none := by
    rw [Plan.slotFault?_eq_none_iff] at hslots ⊢
    rw [← hslots, Row.upTo, List.length_append, List.length_map, ← List.length_append,
      List.take_append_drop]
  rw [hp, collect, hslots']
  simp only [hroot, Bool.false_eq_true, if_false, if_neg hdeep, combineInto_upTo hfault]
  rfl

/-- A row that is refused leaves no trace exactly if, in each field before the one for which it is
refused, the group's accumulator stays the same when the row's is joined to it. -/
theorem collect_eq_self_iff {fault : Error} (h : (p.collect key row).2 = some fault) :
  (p.collect key row).1 = p
    ↔ ∀ field group present, fault = .incompatible field → key = .group group →
      p.groups.lookup group = some present →
      ∀ i < field, Slot.combine? (present.slot? i) (row.slot? i) = some (present.slot? i)
  := by
  by_cases hfield : ∃ field, fault = .incompatible field
  · obtain ⟨field, rfl⟩ := hfield
    obtain ⟨group, rfl, -, -, -, hfault, hp⟩ := collect_incompatible h
    have hself : (p.collect (.group group) row).1 = p
        ↔ (combineInto group row p.groups).1 = p.groups := by
      obtain ⟨plan, details, groups⟩ := p
      rw [hp, Partition.mk.injEq]
      simp
    rw [hself, combineInto_eq_self_iff hfault]
    constructor
    · rintro hall _ _ present ⟨⟩ ⟨⟩
      apply hall present
    · intro hall present
      apply hall field group present rfl rfl
  · rw [not_exists] at hfield
    simp only [collect_eq_self h hfield, true_iff]
    intro field _ _ hincompatible
    exact absurd hincompatible (hfield field)

/-! ### Reading on behind refused rows -/

/-- Reads payloads one after the other; behind a row that is refused, the next payload is read. -/
def readEach (p : Partition) : List Payload → Partition
  | [] => p
  | payload :: rest => (p.read payload).1.readEach rest

/-- The rows of a payload that are accepted, which are those before the first that is refused. -/
def accepted (p : Partition) : Payload → Payload
  | [] => []
  | (key, row) :: rest =>
    match p.collect key row with
    | (q, none) => (key, row) :: q.accepted rest
    | (_, some _) => []

/-- What the first row that is refused leaves behind. -/
def remnant (p : Partition) : Payload → Payload
  | [] => []
  | (key, row) :: rest =>
    match p.collect key row with
    | (q, none) => q.remnant rest
    | (_, some (.incompatible field)) => [(key, row.upTo field)]
    | (_, some _) => []

/-- The rows that each of some payloads has accepted. -/
def acceptedEach (p : Partition) : List Payload → List Payload
  | [] => []
  | payload :: rest => p.accepted payload :: (p.read payload).1.acceptedEach rest

/-- What the refused row of each of some payloads leaves behind. -/
def remnantEach (p : Partition) : List Payload → List Payload
  | [] => []
  | payload :: rest => p.remnant payload :: (p.read payload).1.remnantEach rest

/-- A read comes to what it accepts and what the row that stops it leaves behind. -/
theorem read_accepted_append_remnant (p : Partition) (payload : Payload) :
  p.read (p.accepted payload ++ p.remnant payload) = ((p.read payload).1, none)
  := by
  induction payload generalizing p with
  | nil => rfl
  | cons entry payload ih =>
      obtain ⟨key, row⟩ := entry
      rw [accepted, remnant, read]
      rcases hp : p.collect key row with ⟨q, _ | fault⟩
      · simp only [List.cons_append, read, hp]
        apply ih
      · have hfault : (p.collect key row).2 = some fault := by rw [hp]
        have hq : (p.collect key row).1 = q := by rw [hp]
        cases fault with
        | incompatible field =>
            simp only [List.nil_append, read, collect_upTo hfault, hq]
        | _ =>
            simp only [List.nil_append, read, ← hq]
            rw [collect_eq_self hfault (by simp)]

/-- A row that is refused leaves nothing behind if it has no accumulator in the fields before. -/
theorem read_accepted {payload : Payload}
    (hollow : ∀ entry ∈ p.remnant payload, ∀ slot ∈ entry.2.slots, slot = none) :
  p.read (p.accepted payload) = ((p.read payload).1, none)
  := by
  induction payload generalizing p with
  | nil => rfl
  | cons entry payload ih =>
      obtain ⟨key, row⟩ := entry
      rw [remnant] at hollow
      rw [accepted, read]
      rcases hp : p.collect key row with ⟨q, _ | fault⟩
      · rw [hp] at hollow
        simp only [read, hp]
        apply ih hollow
      · have hfault : (p.collect key row).2 = some fault := by rw [hp]
        have hself : (p.collect key row).1 = p := by
          apply (collect_eq_self_iff hfault).mpr
          rintro field _ present rfl - - i hi
          have hslot : row.slot? i = none := by
            rw [hp] at hollow
            rw [Row.slot?]
            cases hi' : row.slots[i]? with
            | none => rfl
            | some slot =>
                have hmem : slot ∈ row.slots.take field := by
                  apply List.mem_of_getElem? (i := i)
                  rw [List.getElem?_take_of_lt hi, hi']
                rw [hollow _ List.mem_cons_self slot (List.mem_append_left _ hmem)]
                rfl
          rw [hslot, Slot.combine?_none_right]
        rw [hp] at hself
        rw [read, ← hself]

/-- What a partition has read does not show where reads stopped at refused rows, except for what
these rows left behind: the accumulators in the fields before the one in which a row differs in kind
from its group.  A refused row leaves no trace exactly if the group's accumulators stay the same
when these are joined to them, so that none is left where each refused row has none of them. -/
theorem readEach_eq_readAll (p : Partition) (reads : List Payload) :
  p.readAll (List.zipWith (· ++ ·) (p.acceptedEach reads) (p.remnantEach reads))
      = (p.readEach reads, none)
    ∧ (∀ key row fault, (p.collect key row).2 = some fault →
      ((p.collect key row).1 = p
        ↔ ∀ field group present, fault = .incompatible field → key = .group group →
          p.groups.lookup group = some present →
          ∀ i < field, Slot.combine? (present.slot? i) (row.slot? i) = some (present.slot? i)))
    ∧ ((∀ entry ∈ (p.remnantEach reads).flatten, ∀ slot ∈ entry.2.slots, slot = none) →
      p.readAll (p.acceptedEach reads) = (p.readEach reads, none))
  := by
  use ?remnants, fun _ _ _ => collect_eq_self_iff, ?hollow
  case remnants =>
    induction reads generalizing p with
    | nil => rfl
    | cons payload reads ih =>
        rw [acceptedEach, remnantEach, List.zipWith_cons_cons, readAll,
          read_accepted_append_remnant]
        apply ih
  case hollow =>
    intro hollow
    induction reads generalizing p with
    | nil => rfl
    | cons payload reads ih =>
        rw [remnantEach, List.flatten_cons] at hollow
        rw [acceptedEach, readAll, read_accepted fun entry hentry =>
          hollow entry (List.mem_append_left _ hentry)]
        apply ih
        intro entry hentry
        apply hollow entry (List.mem_append_right _ hentry)

/-- Reads that stop at a row without enough slots, at a row of a group too deep, and at a row that
has nothing in the fields before the one for which it is refused. -/
def harmlessRefusals : List Payload :=
  let a : Key := ⟨[.text "a"]⟩
  let b : Key := ⟨[.null]⟩
  [.ofRows [⟨.group a, [some (.count 1), some (.count 1)]⟩, ⟨.group a, [some (.count 2)]⟩,
      ⟨.group b, [none, none]⟩],
    .ofRows [⟨.detail b, [none, none]⟩, ⟨.group (a.child .null), [some (.count 4), none]⟩],
    .ofRows [⟨.group b, [some (.sum ⟨0⟩), none]⟩, ⟨.group a, [none, some (.max .null)]⟩],
    .ofRows [⟨.group a, [some (.count 8), none]⟩]]

theorem readEach_eq_readAll_harmlessRefusals :
  let p := empty ⟨2, some 0, some 1, []⟩
  let a : Key := ⟨[.text "a"]⟩
  let b : Key := ⟨[.null]⟩
  p.acceptedEach harmlessRefusals
      = [.ofRows [⟨.group a, [some (.count 1), some (.count 1)]⟩],
        .ofRows [⟨.detail b, [none, none]⟩], .ofRows [⟨.group b, [some (.sum ⟨0⟩), none]⟩],
        .ofRows [⟨.group a, [some (.count 8), none]⟩]]
    ∧ p.readAll (p.acceptedEach harmlessRefusals) = (p.readEach harmlessRefusals, none)
    ∧ (p.readEach harmlessRefusals).emit
      = .ofRows [⟨.detail b, [none, none]⟩, ⟨.group a, [some (.count 9), some (.count 1)]⟩,
        ⟨.group b, [some (.sum ⟨0⟩), none]⟩]
  := by
  intro p a b
  have hollow : ∀ entry ∈ (p.remnantEach harmlessRefusals).flatten,
      ∀ slot ∈ entry.2.slots, slot = none := by decide +kernel
  exact ⟨by decide +kernel, (readEach_eq_readAll p harmlessRefusals).2.2 hollow, by decide +kernel⟩

/-- A row that has a count for its group before the field for which it is refused. -/
def halfCounted : Payload :=
  let a : Key := ⟨[.text "a"]⟩
  .ofRows [⟨.group a, [some (.count 1), some (.count 1)]⟩,
    ⟨.group a, [some (.count 2), some (.sum ⟨0⟩)]⟩]

/-- A row that is refused may leave a trace: the group counts what came with it. -/
theorem refused_row_leaves_trace :
  let p := empty ⟨2, some 0, some 0, []⟩
  let counted (n : UInt64) : Payload :=
    .ofRows [⟨.group ⟨[.text "a"]⟩, [some (.count n), some (.count 1)]⟩]
  (p.read halfCounted).2 = some (.incompatible 1)
    ∧ (p.readEach [halfCounted]).emit = counted 3
    ∧ p.acceptedEach [halfCounted] = [counted 1]
    ∧ (p.readAll (p.acceptedEach [halfCounted])).2 = none
    ∧ (p.readAll (p.acceptedEach [halfCounted])).1.emit = counted 1
    ∧ counted 3 ≠ counted 1
  := by
  decide +kernel

end Partition

end Collate
