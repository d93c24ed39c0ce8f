import Collate.Proofs.ArrivalOrder

/-!
# What a partition comes to

What a partition emits is told from the rows it has read: the detail rows as they came, and then,
from the shallowest depth to the deepest, one row for each group in the order in which the groups
were first seen, with the accumulators of its rows joined field by field in the order of arrival.
It makes no difference at which places the rows were parted into reads, and what was emitted is
emitted once more when it is read.
-/

namespace Collate

/-- The groups to which some rows belong, in the order in which they are first seen. -/
def groupsSeen (rows : List Row) : List Key :=
  (rows.filterMap (·.settled.key.key?)).eraseDups

theorem eraseDups_concat {α : Type} [DecidableEq α] (l : List α) (a : α) :
  (l ++ [a]).eraseDups = if a ∈ l then l.eraseDups else l.eraseDups ++ [a]
  := by
  rw [List.eraseDups_append, List.removeAll]
  by_cases h : a ∈ l
  · simp [h]
  · simp [h, List.eraseDups_cons]

namespace Partition

/-- Reads payloads one after the other, up to the first row that is refused. -/
def readAll (p : Partition) : List Payload → Partition × Option Error
  | [] => (p, none)
  | payload :: rest =>
    match p.read payload with
    | (p, none) => p.readAll rest
    | (p, some fault) => (p, some fault)

/-- It makes no difference at which places a payload is parted into reads. -/
theorem readAll_eq (p : Partition) (payloads : List Payload) :
  p.readAll payloads = p.read payloads.flatten
  := by
  induction payloads generalizing p with
  | nil => rfl
  | cons payload payloads ih =>
      rw [readAll, List.flatten_cons]
      rcases h : p.read payload with ⟨q, _ | fault⟩
      · rw [read_append_of_none h]
        apply ih
      · rw [read_append_of_fault h]

section

variable {plan : Plan} {p : Partition} {rows : List Row}

/-- The groups stand in the order in which they were first seen. -/
theorem map_fst_groups_of_read (h : (empty plan).read (.ofRows rows) = (p, none)) :
  p.groups.map (·.1) = groupsSeen rows
  := by
  apply read_induction (P := fun q taken => q.groups.map (·.1) = groupsSeen taken) h
  · rfl
  · intro q taken row hq hrow
    rw [groupsSeen, List.filterMap_append]
    obtain ⟨-, ⟨parent, hkey, hp⟩ | ⟨key, hkey, -, -, -, hp⟩⟩ := collect_accepted hrow
    · simp [hp, hq, hkey, groupsSeen, RowKey.key?]
    · have hseen : key ∈ groupsSeen taken
          ↔ key ∈ taken.filterMap (·.settled.key.key?) := List.mem_eraseDups
      simp only [hp, map_fst_combineInto, hq, hseen, hkey, RowKey.key?, List.filterMap_cons,
        List.filterMap_nil, eraseDups_concat]
      rfl

/-- One row for each group, and all of it from the rows of that group. -/
theorem exists_combined (h : (empty plan).read (.ofRows rows) = (p, none)) :
  ∃ combined : Key → Row, p.groups = (groupsSeen rows).map (fun key => (key, combined key))
    ∧ ∀ key ∈ groupsSeen rows, (combined key).key = .group key
      ∧ (combined key).slots.map .ok
        = (List.range plan.fieldCount).map fun field =>
          Slot.joined ((rowsOf key rows).map (·.slot? field))
  := by
  have hsound : p.Sound := (sound_empty plan).read h
  let combined (key : Key) : Row := (p.groups.lookup key).getD default
  have hcombined : ∀ entry ∈ p.groups, entry = (entry.1, combined entry.1) := by
    intro entry hentry
    have hlookup := (lookup_eq_some_iff_mem hsound.distinct).mpr hentry
    simp only [combined, hlookup, Option.getD_some]
  use combined, ?groups
  case groups =>
    rw [← map_fst_groups_of_read h, List.map_map]
    conv => lhs; rw [← List.map_id p.groups]
    apply List.map_congr_left hcombined
  intro key hkey
  rw [← map_fst_groups_of_read h] at hkey
  obtain ⟨entry, hentry, rfl⟩ := List.mem_map.mp hkey
  rw [hcombined entry hentry] at hentry
  obtain ⟨-, hown, hlength, hgather⟩ := (mem_groups_iff_of_read h).mp hentry
  use hown
  apply List.ext_getElem
  · simp [hlength]
  · intro field hfield _
    rw [List.length_map] at hfield
    have hslot : (combined entry.1).slot? field = (combined entry.1).slots[field] := by
      simp [Row.slot?, hfield]
    rw [List.getElem_map, List.getElem_map, List.getElem_range, ← hslot]
    apply (Slot.gather?_eq_some_iff.mp (hgather field)).symm

/-- Details are queued under their own keys. -/
theorem Sound.details_eq (sound : p.Sound) :
  p.details = .ofRows (p.details.map (·.2))
  := by
  rw [Payload.ofRows, List.map_map]
  conv => lhs; rw [← List.map_id p.details]
  apply List.map_congr_left
  intro entry hentry
  obtain ⟨parent, hqueued, hkey⟩ := sound.details entry hentry
  simp only [id, Function.comp_apply, hkey, ← hqueued]

theorem Sound.emit_eq (sound : p.Sound) :
  p.emit = .ofRows (p.details.map (·.2) ++ (List.range p.plan.groupLevels).flatMap p.atDepth)
  := by
  rw [emit, Payload.ofRows_append, ← sound.details_eq]

/-- The rows emitted at one depth are those of the groups of that depth. -/
theorem Sound.filterMap_asGroup?_atDepth (sound : p.Sound) (depth : ℕ) :
  (p.atDepth depth).filterMap asGroup? = p.groups.filter fun entry => entry.1.length = depth + 1
  := by
  rw [atDepth, List.filterMap_map]
  conv => rhs; rw [← List.filterMap_some (l := p.groups.filter _)]
  apply List.filterMap_congr
  intro entry hentry
  simp [asGroup?, sound.groups entry (List.mem_filter.mp hentry).1, RowKey.key?]

/-- The details that are emitted are those that were read. -/
theorem Sound.filter_isDetail_emit (sound : p.Sound) :
  (p.emit.map (·.2)).filter (·.key.isDetail) = p.details.map (·.2)
  := by
  rw [sound.emit_eq, Payload.map_snd_ofRows, List.filter_append,
    List.filter_eq_self.mpr fun _ => sound.isDetail, List.filter_eq_nil_iff.mpr, List.append_nil]
  intro row hrow
  obtain ⟨depth, -, hrow⟩ := List.mem_flatMap.mp hrow
  obtain ⟨entry, hentry, rfl⟩ := List.mem_map.mp hrow
  simp [sound.groups entry (List.mem_filter.mp hentry).1, RowKey.isDetail]

/-- Read again, what was emitted holds the same details, and the groups depth by depth. -/
theorem Sound.ofSettled_emit (sound : p.Sound) :
  ofSettled p.plan (p.emit.map (·.2))
    = { p with
        groups := (List.range p.plan.groupLevels).flatMap fun depth =>
          p.groups.filter fun entry => entry.1.length = depth + 1 }
  := by
  have hnone : (p.details.map (·.2)).filterMap asGroup? = [] := by
    rw [List.filterMap_eq_nil_iff]
    intro row hrow
    obtain ⟨entry, hentry, rfl⟩ := List.mem_map.mp hrow
    obtain ⟨parent, -, hkey⟩ := sound.details entry hentry
    simp [asGroup?, hkey, RowKey.key?]
  rw [ofSettled, sound.filter_isDetail_emit, ← sound.details_eq, sound.emit_eq,
    Payload.map_snd_ofRows, List.filterMap_append, hnone, List.nil_append, List.filterMap_flatMap]
  simp only [sound.filterMap_asGroup?_atDepth]

/-- What was emitted is emitted once more when it is read.  The groups of one depth stand together,
in their old order. -/
theorem Sound.emit_ofSettled (sound : p.Sound) :
  (ofSettled p.plan (p.emit.map (·.2))).emit = p.emit
  := by
  rw [sound.ofSettled_emit, emit, emit]
  congr 2
  apply List.flatMap_congr
  intro depth hdepth
  have hfilter : ((List.range p.plan.groupLevels).flatMap fun depth =>
      p.groups.filter fun entry => entry.1.length = depth + 1).filter
        (fun entry => entry.1.length = depth + 1)
      = p.groups.filter fun entry => entry.1.length = depth + 1 := by
    rw [List.filter_flatMap, flatMap_range_eq (List.mem_range.mp hdepth)]
    · rw [List.filter_filter]
      simp only [Bool.and_self]
    · intro other hother
      rw [List.filter_filter, List.filter_eq_nil_iff]
      intro entry _
      simp only [Bool.and_eq_true, decide_eq_true_eq]
      omega
  apply congrArg (List.map (·.2)) hfilter

/-- What is emitted after some reads: first the details as they came, a row under the empty key as a
detail row at the top, and then from depth to depth the groups in the order in which they were first
seen, one row for each.  Each slot of that row is made of the accumulators that came for it,
combined one after the other, and is empty if none came.  So no detail row is lost, no group has two
rows, it makes no difference at which places the rows were parted into reads, and what was emitted
is emitted once more when it is read by another partition. -/
theorem emit_of_reads {reads : List (List Row)}
    (h : (empty plan).readAll (reads.map .ofRows) = (p, none)) :
  let rows := reads.flatten
  let details := (rows.map Row.settled).filter (·.key.isDetail)
  (∃ combined : Key → Row,
      p.emit = .ofRows (details ++ (List.range plan.groupLevels).flatMap fun depth =>
        ((groupsSeen rows).filter (·.length = depth + 1)).map combined)
      ∧ ∀ key ∈ groupsSeen rows, 0 < key.length ∧ key.length ≤ plan.groupLevels
        ∧ (combined key).key = .group key
        ∧ (combined key).slots.map .ok
          = (List.range plan.fieldCount).map fun field =>
            Slot.joined ((rowsOf key rows).map (·.slot? field)))
    ∧ (p.emit.map (·.2)).filter (·.key.isDetail) = details
    ∧ ((p.emit.map (·.2)).filterMap (·.key.key?)).Nodup
    ∧ (∀ reads', List.flatten reads' = rows →
      (empty plan).readAll (reads'.map Payload.ofRows) = (p, none))
    ∧ ∃ again, (empty plan).read p.emit = (again, none) ∧ again.emit = p.emit
  := by
  intro rows details
  have hflatten (reads' : List (List Row)) :
      (reads'.map Payload.ofRows).flatten = Payload.ofRows reads'.flatten :=
    List.map_flatten.symm
  have hread : (empty plan).read (.ofRows rows) = (p, none) := by
    rw [← hflatten, ← readAll_eq, h]
  have hsound : p.Sound := (sound_empty plan).read hread
  have hplan : p.plan = plan := plan_of_read hread
  have hdetails : p.details.map (·.2) = details := by
    rw [details_read hread]
    rfl
  refine ⟨?emitted, ?preserved, hsound.settled_emit.distinct, ?cuts, ?again⟩
  case emitted =>
    obtain ⟨combined, hgroups, hcombined⟩ := exists_combined hread
    use combined
    constructor
    · have hdepth : p.atDepth = fun depth =>
          ((groupsSeen rows).filter (·.length = depth + 1)).map combined := by
        funext depth
        rw [atDepth, hgroups, List.filter_map, List.map_map]
        rfl
      rw [hsound.emit_eq, hdetails, hplan, hdepth]
    · intro key hkey
      have hentry : (key, combined key) ∈ p.groups := by
        rw [hgroups]
        apply List.mem_map_of_mem hkey
      obtain ⟨hroot, hshallow⟩ := hsound.nested _ hentry
      rw [hplan] at hshallow
      have hlength : key.length = key.parent.length + 1 := Key.length_of_parent hroot rfl
      exact ⟨by omega, hshallow, hcombined key hkey⟩
  case preserved =>
    rw [hsound.filter_isDetail_emit, hdetails]
  case cuts =>
    intro reads' hreads'
    rw [readAll_eq, hflatten, hreads', hread]
  case again =>
    use ofSettled plan (p.emit.map (·.2))
    rw [← hplan, hsound.emit_ofSettled]
    constructor
    · have hemit : p.emit = .ofRows (p.emit.map (·.2)) := by
        rw [hsound.emit_eq, Payload.map_snd_ofRows]
      conv => lhs; rw [hemit]
      apply read_settled hsound.settled_emit
    · rfl

/-- Two reads in which groups of two depths take turns, with an empty slot, a row under the empty
key and two details that are alike. -/
def turns : List (List Row) :=
  let a : Key := ⟨[.text "a"]⟩
  let b : Key := ⟨[.null]⟩
  let c : Key := ⟨[.text "a", .long 1]⟩
  [[⟨.group c, [none, some (.count 5)]⟩, ⟨.detail a, [none, none]⟩,
      ⟨.group b, [some (.max .null), none]⟩],
    [⟨.group .root, [none, some (.count 1)]⟩, ⟨.group a, [some (.value (.boolean true)), none]⟩,
      ⟨.group b, [none, some (.count 2)]⟩, ⟨.group c, [none, some (.count 2)]⟩,
      ⟨.detail a, [none, none]⟩, ⟨.group b, [some (.max (.long 4)), some (.count 4)]⟩]]

theorem emit_of_reads_turns :
  let plan : Plan := ⟨2, some 1, some 2, []⟩
  let a : Key := ⟨[.text "a"]⟩
  let b : Key := ⟨[.null]⟩
  let c : Key := ⟨[.text "a", .long 1]⟩
  let emitted : List Row :=
    [⟨.detail a, [none, none]⟩, ⟨.detail .root, [none, some (.count 1)]⟩,
      ⟨.detail a, [none, none]⟩, ⟨.group b, [some (.max (.long 4)), some (.count 6)]⟩,
      ⟨.group a, [some (.value (.boolean true)), none]⟩, ⟨.group c, [none, some (.count 7)]⟩]
  ∃ p, (empty plan).readAll (turns.map .ofRows) = (p, none)
    ∧ p.emit = .ofRows emitted
    ∧ groupsSeen turns.flatten = [c, b, a]
    ∧ ∃ again, (empty plan).read (.ofRows emitted) = (again, none) ∧ again.emit = p.emit
  := by
  intro plan a b c emitted
  have hfault : ((empty plan).readAll (turns.map .ofRows)).2 = none := by decide +kernel
  have hread : (empty plan).readAll (turns.map .ofRows)
      = (((empty plan).readAll (turns.map .ofRows)).1, none) := Prod.ext rfl hfault
  have hemit : ((empty plan).readAll (turns.map .ofRows)).1.emit = .ofRows emitted := by
    decide +kernel
  obtain ⟨-, -, -, -, hagain⟩ := emit_of_reads hread
  rw [hemit] at hagain
  refine ⟨_, hread, hemit, ?_, ?_⟩
  · decide +kernel
  · rw [hemit]
    apply hagain

end

end Partition

end Collate
