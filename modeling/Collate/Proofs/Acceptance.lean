import Collate.Proofs.Joining

/-!
# Which rows are accepted

A partition accepts rows exactly if each has one slot for each field, none belongs to a group deeper
than the plan allows, and the rows of each group can be joined in every field.  Except for the last,
which asks about each group by itself, nothing depends on the order of the rows.
-/

namespace Collate

namespace Slot

/-- Slots are joined without a fault exactly if they can be combined in every field. -/
theorem combineAll_accepted_iff {field : ℕ} {as bs : List Slot} (hlength : as.length = bs.length) :
  (combineAll field as bs).2 = none ↔ ∀ i : ℕ, (combine? as[i]?.join bs[i]?.join).isSome
  := by
  fun_induction combineAll field as bs with
  | case1 field a as b bs hnone =>
      constructor
      · intro h
        contradiction
      · intro h
        have := h 0
        simp [hnone] at this
  | case2 field a as b bs c hc rest fault hrest ih =>
      have hlength' : as.length = bs.length := by simpa using hlength
      rw [hrest] at ih
      apply (ih hlength').trans
      constructor
      · intro h i
        cases i with
        | zero => simp [hc]
        | succ i => simpa using h i
      · intro h i
        simpa using h (i + 1)
  | case3 field as bs hends =>
      have hnil : as = [] ∧ bs = [] := by
        cases as with
        | nil => simpa [eq_comm] using hlength
        | cons a as =>
            cases bs with
            | nil => contradiction
            | cons b bs => exact (hends _ _ _ _ rfl rfl).elim
      simp [hnil]

end Slot

/-- A row whose group was seen is refused for the slots in which it differs from the group's row. -/
theorem fault_combineInto_of_mem {key : Key} {present : Row} {groups : List (Key × Row)}
    (distinct : (groups.map (·.1)).Nodup) (h : (key, present) ∈ groups) (row : Row) :
  (combineInto key row groups).2 = (Slot.combineAll 0 present.slots row.slots).2
  := by
  induction groups with
  | nil => contradiction
  | cons first groups ih =>
      obtain ⟨hfresh, hdistinct⟩ := List.nodup_cons.mp distinct
      rw [combineInto]
      obtain rfl | h := List.mem_cons.mp h
      · rw [if_pos rfl]
      · have hne : first.1 ≠ key := by
          rintro rfl
          apply hfresh (List.mem_map.mpr ⟨_, h, rfl⟩)
        rw [if_neg hne]
        apply ih hdistinct h

/-- Rows that can be joined group by group, in every field. -/
def Joinable (came : Key → List Row) : Prop :=
  ∀ key, key ≠ .root → ∀ field, (Slot.gather? ((came key).map (·.slot? field))).isSome

/-- A row with one slot for each field, not deeper than the plan groups. -/
def Plan.Admits (plan : Plan) (row : Row) : Prop :=
  plan.slotFault? row = none ∧ ∀ key, row.key = .group key → key.length ≤ plan.groupLevels

namespace Partition

variable {p : Partition} {came : Key → List Row}

theorem Gathers.joinable (gathers : p.Gathers came) :
  Joinable came
  := by
  intro key hroot field
  by_cases hkey : key ∈ p.groups.map (·.1)
  · obtain ⟨entry, hentry, rfl⟩ := List.mem_map.mp hkey
    rw [Slot.gather?_eq_some_iff.mpr (gathers.joined entry hentry field)]
    rfl
  · rw [gathers.fresh key hroot hkey]
    rfl

/-- A row of a group is accepted exactly if it can be joined to what the group has gathered. -/
theorem Gathers.combineInto_accepts_iff (gathers : p.Gathers came) (sound : p.Sound) {key : Key}
    {row : Row} (slots : p.plan.slotFault? row = none) (hroot : key ≠ .root)
    (hkey : row.key = .group key) :
  (combineInto key row p.groups).2 = none
    ↔ ∀ field, (Slot.gather? ((came key ++ [row]).map (·.slot? field))).isSome
  := by
  by_cases hmem : key ∈ p.groups.map (·.1)
  · obtain ⟨⟨_, present⟩, hentry, rfl⟩ := List.mem_map.mp hmem
    have hpresent := sound.slots present (List.mem_append_right _ (List.mem_map_of_mem hentry))
    rw [Plan.slotFault?_eq_none_iff] at slots hpresent
    rw [fault_combineInto_of_mem sound.distinct hentry,
      Slot.combineAll_accepted_iff (hpresent.trans slots.symm)]
    apply forall_congr'
    intro field
    rw [List.map_append, List.map_singleton, Slot.gather?_concat,
      Slot.gather?_eq_some_iff.mpr (gathers.joined _ hentry field)]
    rfl
  · rw [combineInto_of_notMem row hmem, gathers.fresh key hroot hmem]
    simp [Slot.gather?]

theorem admits_of_accepted {row : Row} (h : (p.collect row.key row).2 = none) :
  p.plan.Admits row
  := by
  obtain ⟨hslots, ⟨parent, hsettled, -⟩ | ⟨key, -, hkey, -, hshallow, -⟩⟩ := collect_accepted h
  · use hslots
    rintro key hkey
    have hroot : key = .root := by
      by_contra hroot
      rw [Row.settled_eq_self (by simpa [hkey] using hroot), hkey] at hsettled
      contradiction
    rw [hroot]
    apply Nat.zero_le
  · use hslots
    intro key' hkey'
    obtain rfl : key = key' := by simpa [hkey] using hkey'
    apply hshallow

/-- A row is accepted exactly if it is admitted and can be joined to what its group has gathered. -/
theorem Gathers.collect_accepts_iff (gathers : p.Gathers came) (sound : p.Sound) (row : Row) :
  (p.collect row.key row).2 = none
    ↔ p.plan.Admits row ∧ Joinable fun key => came key ++ rowsOf key [row]
  := by
  constructor
  · intro h
    exact ⟨admits_of_accepted h, (gathers.collect sound h).joinable⟩
  · rintro ⟨⟨hslots, hshallow⟩, joinable⟩
    cases hsettled : row.settled.key with
    | detail parent => rw [collect_detail hslots hsettled]
    | group key =>
        obtain ⟨hself, hroot⟩ := Row.settled_of_group hsettled
        have hkey : row.key = .group key := hself ▸ hsettled
        have hjoinable := joinable key hroot
        simp only [rowsOf_singleton_self hkey] at hjoinable
        rw [collect_group hslots hsettled, if_neg (Nat.not_lt.mpr (hshallow key hkey)),
          (gathers.combineInto_accepts_iff sound hslots hroot hkey).mpr hjoinable]
        rfl

/-- Rows are accepted exactly if each is admitted and those of each group can be joined to what the
group has gathered.  Rows that can be joined with those behind this one can be joined up to it,
too. -/
theorem Gathers.read_accepts_iff (gathers : p.Gathers came) (sound : p.Sound) (rows : List Row) :
  (p.read (.ofRows rows)).2 = none
    ↔ (∀ row ∈ rows, p.plan.Admits row) ∧ Joinable fun key => came key ++ rowsOf key rows
  := by
  induction rows generalizing p came with
  | nil =>
      have hcame : (fun key => came key ++ rowsOf key []) = came := by
        funext key
        apply List.append_nil
      rw [hcame]
      simp [Payload.ofRows, Partition.read, gathers.joinable]
  | cons row rows ih =>
      have hcame (key : Key) : came key ++ rowsOf key (row :: rows)
          = came key ++ rowsOf key [row] ++ rowsOf key rows := by
        rw [← List.singleton_append, rowsOf_append, List.append_assoc]
      have hstep := gathers.collect_accepts_iff sound row
      simp only [hcame, List.forall_mem_cons]
      rw [Payload.ofRows, List.map_cons, Partition.read]
      by_cases haccepted : (p.collect row.key row).2 = none
      · have hadmits := admits_of_accepted haccepted
        have hrest := ih (gathers.collect sound haccepted) (sound.collect haccepted)
        rw [plan_collect] at hrest
        rcases hp : p.collect row.key row with ⟨p', fault⟩
        rw [hp] at haccepted hrest
        obtain rfl : fault = none := haccepted
        apply hrest.trans
        simp [hadmits]
      · rcases hp : p.collect row.key row with ⟨p', _ | fault⟩
        · rw [hp] at haccepted
          contradiction
        · simp only [reduceCtorEq, false_iff]
          rintro ⟨⟨hadmits, -⟩, joinable⟩
          apply haccepted
          apply hstep.mpr
          use hadmits
          intro key hroot field
          have := joinable key hroot field
          rw [List.map_append] at this
          apply Slot.isSome_gather?_of_append this

theorem gathers_empty (plan : Plan) :
  (empty plan).Gathers fun _ => []
  := by
  constructor
  · simp [empty]
  · simp

/-- Rows are accepted exactly if each is admitted and those of each group can be joined. -/
theorem accepts_iff {plan : Plan} {rows : List Row} :
  ((empty plan).read (.ofRows rows)).2 = none
    ↔ (∀ row ∈ rows, plan.Admits row) ∧ Joinable fun key => rowsOf key rows
  := (gathers_empty plan).read_accepts_iff (sound_empty plan) rows

end Partition

end Collate
