import Collate.Proofs.Settled

/-!
# What the accumulators of a group have gathered

The slots of a group's row are its rows joined field by field in the order in which they were read:
an empty slot yields to the first accumulator that comes, and those that come later are combined
with it one after the other.
-/

namespace Collate

namespace Slot

/-- The accumulators among some slots combined one after the other; an accumulator that differs in
kind from those before it is handed back. -/
def joined (slots : List Slot) : Except Accumulator Slot :=
  match slots.filterMap id with
  | [] => .ok none
  | first :: later => some <$> later.foldlM Accumulator.combine first

theorem joined_append {slots : List Slot} {a b c : Slot} (h : joined slots = .ok a)
    (hc : combine? a b = some c) :
  joined (slots ++ [b]) = .ok c
  := by
  rw [joined, List.filterMap_append]
  rw [joined] at h
  cases b with
  | none =>
      obtain rfl : a = c := by
        cases a <;> simpa [combine?] using hc
      simpa using h
  | some b =>
      cases hslots : slots.filterMap id with
      | nil =>
          rw [hslots, Except.ok.injEq] at h
          subst h
          obtain rfl : some b = c := by simpa [combine?] using hc
          rfl
      | cons first later =>
          rw [hslots] at h
          simp only [List.cons_append, List.foldlM_append] at h ⊢
          cases hlater : later.foldlM Accumulator.combine first with
          | error refused => simp [hlater, Functor.map, Except.map] at h
          | ok a' =>
              obtain rfl : some a' = a := by
                simpa [hlater, Functor.map, Except.map] using h
              cases hcombine : a'.combine b with
              | error refused => simp [combine?, hcombine] at hc
              | ok c' =>
                  obtain rfl : some c' = c := by simpa [combine?, hcombine] using hc
                  simp [hcombine, bind, Except.bind, Functor.map, Except.map, pure, Except.pure]

/-- Slots that are joined without a fault are combined in every field. -/
theorem combine?_of_combineAll {field : ℕ} {as bs cs : List Slot}
    (h : combineAll field as bs = (cs, none)) (hlength : as.length = bs.length) (i : ℕ) :
  combine? as[i]?.join bs[i]?.join = some cs[i]?.join
  := by
  fun_induction combineAll field as bs generalizing cs i with
  | case1 => simp at h
  | case2 field a as b bs c hc rest fault hrest ih =>
      obtain ⟨rfl, rfl⟩ := Prod.mk.inj h
      cases i with
      | zero => simpa using hc
      | succ i =>
          have hlength' : as.length = bs.length := by simpa using hlength
          simpa using ih hrest hlength' i
  | case3 field as bs hends =>
      obtain ⟨rfl, -⟩ := Prod.mk.inj h
      cases as with
      | nil =>
          obtain rfl := List.length_eq_zero_iff.mp hlength.symm
          rfl
      | cons a as =>
          cases bs with
          | nil => contradiction
          | cons b bs => exact (hends _ _ _ _ rfl rfl).elim

end Slot

/-- The rows among some that belong to a group. -/
def rowsOf (key : Key) (rows : List Row) : List Row :=
  rows.filter fun row => row.key = .group key

@[simp]
theorem rowsOf_append (key : Key) (rows rows' : List Row) :
  rowsOf key (rows ++ rows') = rowsOf key rows ++ rowsOf key rows'
  := List.filter_append _ _

theorem rowsOf_singleton_of_ne {key : Key} {row : Row} (h : row.key ≠ .group key) :
  rowsOf key [row] = []
  := by
  simp [rowsOf, h]

theorem rowsOf_singleton_self {key : Key} {row : Row} (h : row.key = .group key) :
  rowsOf key [row] = [row]
  := by
  simp [rowsOf, h]

/-- Combining changes the row of no other group, and the row of its own in every field. -/
theorem mem_combineInto_of_accepted {key : Key} {row : Row} {groups : List (Key × Row)}
    (distinct : (groups.map (·.1)).Nodup) {entry : Key × Row}
    (h : entry ∈ (combineInto key row groups).1)
    (accepted : (combineInto key row groups).2 = none) :
  (entry.1 ≠ key ∧ entry ∈ groups) ∨ (entry = (key, row) ∧ key ∉ groups.map (·.1))
    ∨ ∃ present slots, (key, present) ∈ groups ∧ entry = (key, { present with slots })
      ∧ Slot.combineAll 0 present.slots row.slots = (slots, none)
  := by
  induction groups with
  | nil =>
      right
      left
      exact ⟨List.mem_singleton.mp h, List.not_mem_nil⟩
  | cons first groups ih =>
      obtain ⟨k, present⟩ := first
      obtain ⟨hfresh, hdistinct⟩ := List.nodup_cons.mp distinct
      rw [combineInto] at h accepted
      by_cases hk : k = key
      · subst hk
        rw [if_pos rfl] at h accepted
        obtain rfl | hmem := List.mem_cons.mp h
        · right
          right
          exact ⟨present, _, List.mem_cons_self, rfl, Prod.ext rfl accepted⟩
        · left
          constructor
          · rintro rfl
            apply hfresh (List.mem_map.mpr ⟨entry, hmem, rfl⟩)
          · apply List.mem_cons_of_mem _ hmem
      · rw [if_neg hk] at h accepted
        obtain rfl | h := List.mem_cons.mp h
        · left
          exact ⟨hk, List.mem_cons_self⟩
        · obtain ⟨hne, hmem⟩ | ⟨hnew, hnone⟩ | ⟨present', slots, hmem, hentry⟩ :=
            ih hdistinct h accepted
          · left
            exact ⟨hne, List.mem_cons_of_mem _ hmem⟩
          · right
            left
            use hnew
            rw [List.map_cons, List.mem_cons, not_or]
            exact ⟨Ne.symm hk, hnone⟩
          · right
            right
            exact ⟨present', slots, List.mem_cons_of_mem _ hmem, hentry⟩

namespace Partition

/-- The row of each group has gathered the rows that came of that group, in their order. -/
structure Gathers (p : Partition) (came : Key → List Row) : Prop where
  joined : ∀ entry ∈ p.groups, ∀ field,
    Slot.joined ((came entry.1).map (·.slot? field)) = .ok (entry.2.slot? field)
  fresh : ∀ key, key ≠ .root → key ∉ p.groups.map (·.1) → came key = []

/-- A row that is combined with that of its group is joined to what the group has gathered.  Only a
row under the root key can be taken as a detail in spite of its key. -/
theorem Gathers.collect {p : Partition} {came : Key → List Row} (gathers : p.Gathers came)
    (sound : p.Sound) {row : Row} (h : (p.collect row.key row).2 = none) :
  (p.collect row.key row).1.Gathers fun key => came key ++ rowsOf key [row]
  := by
  obtain ⟨hslots, ⟨parent, hkey, hp⟩ | ⟨group, hsettled, hkey, hroot, hshallow, hp⟩⟩ :=
    collect_accepted h
  · have hother {key : Key} (hroot : key ≠ .root) : rowsOf key [row] = [] := by
      apply rowsOf_singleton_of_ne
      intro hgroup
      rw [Row.settled_eq_self (by simpa [hgroup] using hroot), hgroup] at hkey
      contradiction
    rw [hp]
    constructor
    case joined =>
      intro entry hentry field
      rw [hother (sound.nested entry hentry).1, List.append_nil]
      apply gathers.joined entry hentry
    case fresh =>
      intro key hne hkey
      rw [hother hne, List.append_nil]
      apply gathers.fresh key hne hkey
  · have haccepted : (combineInto group row p.groups).2 = none := by
      rw [collect_group hslots hsettled, if_neg (Nat.not_lt.mpr hshallow)] at h
      simpa using h
    have hother {key : Key} (hne : key ≠ group) : rowsOf key [row] = [] := by
      apply rowsOf_singleton_of_ne
      rw [hkey]
      simpa using hne.symm
    rw [hp]
    constructor
    case joined =>
      intro entry hentry field
      obtain ⟨hne, hmem⟩ | ⟨rfl, hfresh⟩ | ⟨present, slots, hmem, rfl, hcombined⟩ :=
        mem_combineInto_of_accepted sound.distinct hentry haccepted
      · rw [hother hne, List.append_nil]
        apply gathers.joined entry hmem
      · rw [gathers.fresh group hroot hfresh, rowsOf_singleton_self hkey]
        cases hslot : row.slot? field <;> simp [Slot.joined, hslot, Functor.map, Except.map,
          pure, Except.pure]
      · rw [rowsOf_singleton_self hkey, List.map_append]
        apply Slot.joined_append (gathers.joined _ hmem field)
        apply Slot.combine?_of_combineAll hcombined
        have hpresent := sound.slots present (List.mem_append_right _ (List.mem_map_of_mem hmem))
        rw [Plan.slotFault?_eq_none_iff] at hslots hpresent
        rw [hpresent, hslots]
    case fresh =>
      intro key hne hmem
      rw [map_fst_combineInto] at hmem
      have hnot : key ∉ p.groups.map (·.1) ∧ key ≠ group := by
        split at hmem
        next hpresent =>
          use hmem
          rintro rfl
          apply hmem hpresent
        next => simpa [not_or] using hmem
      rw [gathers.fresh key hne hnot.1, hother hnot.2]
      rfl

theorem Gathers.read {p p' : Partition} {came : Key → List Row} {rows : List Row}
    (gathers : p.Gathers came) (sound : p.Sound) (h : p.read (.ofRows rows) = (p', none)) :
  p'.Gathers fun key => came key ++ rowsOf key rows
  := by
  suffices key : p'.Sound ∧ p'.Gathers fun key => came key ++ rowsOf key rows from key.2
  apply read_induction (P := fun q taken =>
    q.Sound ∧ q.Gathers fun key => came key ++ rowsOf key taken) h
  · use sound
    simpa [rowsOf] using gathers
  · rintro q taken row ⟨hsound, hgathers⟩ hrow
    use hsound.collect hrow
    simpa [List.append_assoc] using hgathers.collect hsound hrow

end Partition

end Collate
