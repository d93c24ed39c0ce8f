import Collate.Proofs.Feed
import Collate.Proofs.Gathering
import Mathlib.Data.List.DropRight
import Mathlib.Order.Bounds.Basic

/-!
# What a group that was cut away still knows

A group that is cut away, or that stands beneath one that is, loses what it has gathered, and
starts anew when it comes back.  Each row of a snapshot therefore accounts for the rows of its group
in the payloads since it was last missing, and for no others.
-/

namespace Collate

/-- The group has a row in the snapshot. -/
def Snapshot.Shows (s : Snapshot) (key : Key) : Prop :=
  ∃ row ∈ s.rowsByParent.rows, row.key = .group key

instance (s : Snapshot) (key : Key) : Decidable (s.Shows key) :=
  inferInstanceAs (Decidable (∃ row ∈ s.rowsByParent.rows, row.key = .group key))

/-- The longest end of a list that satisfies a predicate starts at the least place from which all
elements satisfy it. -/
theorem isLeast_length_rdropWhile {α : Type} {q : α → Bool} {l : List α} {x : α} (hx : q x = true) :
  IsLeast {m | m ≤ l.length ∧ ∀ y ∈ (l ++ [x]).drop m, q y = true} ((l ++ [x]).rdropWhile q).length
    ∧ (l ++ [x]).drop ((l ++ [x]).rdropWhile q).length = (l ++ [x]).rtakeWhile q
  := by
  have hsplit : (l ++ [x]).rdropWhile q ++ (l ++ [x]).rtakeWhile q = l ++ [x] :=
    List.rdropWhile_append_rtakeWhile
  have hlast := List.rdropWhile_last_not q (l ++ [x])
  have htake : (l ++ [x]).rtakeWhile q = l.rtakeWhile q ++ [x] :=
    List.rtakeWhile_concat_pos q l x hx
  have hends : ∀ y ∈ (l ++ [x]).rtakeWhile q, q y = true := fun y => List.mem_rtakeWhile_imp
  generalize (l ++ [x]).rdropWhile q = before at *
  generalize (l ++ [x]).rtakeWhile q = ends at *
  rw [← hsplit]
  refine ⟨⟨⟨?within, ?ends⟩, ?least⟩, List.drop_left⟩
  case within =>
    have hlength := congrArg List.length hsplit
    simp only [htake, List.length_append, List.length_singleton] at hlength
    omega
  case ends =>
    rw [List.drop_left]
    apply hends
  case least =>
    rintro m ⟨-, hm⟩
    by_contra hless
    rw [not_le] at hless
    have hdrop : before.drop m ≠ [] := by
      rw [ne_eq, List.drop_eq_nil_iff, not_le]
      apply hless
    apply hlast (List.ne_nil_of_drop_ne_nil hdrop)
    apply hm
    rw [List.drop_append_of_le_length hless.le, ← List.getLast_drop hdrop]
    apply List.mem_append_left
    apply List.getLast_mem

namespace Table

/-- A payload that was merged, and the snapshot that came of it. -/
structure Publication where
  rows : List Row
  snapshot : Snapshot

/-- The payloads that are merged when some are added one after the other, without those that are
refused. -/
def publications (t : Table) (batches : List (List Row)) : List Publication :=
  ((batches.zip (t.outcomes (batches.map .ofRows))).filter (·.2.fault.isNone)).map
    fun (rows, outcome) => ⟨rows, outcome.snapshot⟩

theorem Idle.publications_cons {t : Table} (idle : t.Idle) (rows : List Row)
    (batches : List (List Row)) :
  t.publications (rows :: batches)
    = if (t.merge (.ofRows rows)).2 = none
      then ⟨rows, (t.merge (.ofRows rows)).1.snapshot⟩
        :: (t.merge (.ofRows rows)).1.publications batches
      else (t.merge (.ofRows rows)).1.publications batches
  := by
  rw [publications, List.map_cons, idle.outcomes_cons, List.zip_cons_cons, List.filter_cons]
  cases (t.merge (.ofRows rows)).2 <;> rfl

/-- The rows of a group that came with some payloads. -/
def came (key : Key) (run : List Publication) : List Row :=
  rowsOf key (run.flatMap (·.rows))

theorem came_append (key : Key) (run run' : List Publication) :
  came key (run ++ run') = came key run ++ came key run'
  := by
  rw [came, List.flatMap_append, rowsOf_append, came, came]

/-- The last publications, from where on all of them show a group. -/
def since (key : Key) (run : List Publication) : List Publication :=
  run.rtakeWhile fun p => p.snapshot.Shows key

theorem since_concat_of_shows {key : Key} {run : List Publication} {p : Publication}
    (h : p.snapshot.Shows key) :
  since key (run ++ [p]) = since key run ++ [p]
  := List.rtakeWhile_concat_pos _ _ _ (by simpa using h)

theorem since_concat_of_not_shows {key : Key} {run : List Publication} {p : Publication}
    (h : ¬ p.snapshot.Shows key) :
  since key (run ++ [p]) = []
  := List.rtakeWhile_concat_neg _ _ _ (by simpa using h)

/-- A group was last missing before the least place from where on it is shown. -/
theorem exists_isLeast_shows {key : Key} {p : Publication} (h : p.snapshot.Shows key)
    (run : List Publication) :
  ∃ m, IsLeast {m | m ≤ run.length ∧ ∀ q ∈ (run ++ [p]).drop m, q.snapshot.Shows key} m
    ∧ (run ++ [p]).drop m = since key (run ++ [p])
  := by
  let shows : Publication → Bool := fun q => q.snapshot.Shows key
  obtain ⟨hleast, hdrop⟩ := isLeast_length_rdropWhile (l := run) (q := shows) (decide_eq_true h)
  use ((run ++ [p]).rdropWhile shows).length, ?least, hdrop
  case least => simpa [shows] using hleast

theorem shows_iff {t : Table} {key : Key} :
  t.snapshot.Shows key ↔ key ∈ t.held.groups.map (·.1)
  := by
  simp only [Snapshot.Shows, held, List.mem_map, Partition.mem_groups_ofSettled]
  constructor
  · rintro ⟨row, hrow, hkey⟩
    exact ⟨(key, row), ⟨hrow, hkey⟩, rfl⟩
  · rintro ⟨entry, hentry, rfl⟩
    exact ⟨entry.2, hentry⟩

/-- A table in which each group has gathered the rows that came since it was last missing. -/
structure Tracks (t : Table) (run : List Publication) : Prop where
  idle : t.Idle
  intact : t.Intact
  gathers : t.held.Gathers fun key => came key (since key run)

theorem tracks_ofPlan (plan : Plan) (maxResults : Option Sizes) (storeSize : Sizes) :
  (ofPlan plan maxResults storeSize).Tracks []
  where
  idle := idle_ofPlan plan maxResults storeSize
  intact := intact_ofPlan plan maxResults storeSize
  gathers := by
    constructor
    case joined =>
      intro entry hentry
      contradiction
    case fresh =>
      intro key _ _
      rfl

/-- A group that is still there after a merge has gathered what the payload brought; one that is not
has lost what it had.  The payloads since the group was last missing end with this one, or there are
none. -/
theorem Tracks.merge {t : Table} {run : List Publication} {rows : List Row}
    (tracks : t.Tracks run) (h : (t.merge (.ofRows rows)).2 = none) :
  (t.merge (.ofRows rows)).1.Tracks (run ++ [⟨rows, (t.merge (.ofRows rows)).1.snapshot⟩])
  := by
  have intact := tracks.intact.merge rows
  have idle := tracks.idle.merge (.ofRows rows)
  rcases hread : t.held.read (.ofRows rows) with ⟨p, _ | fault⟩
  · obtain ⟨m, hmerge, hkeeps⟩ := tracks.intact.merge_of_read hread
    have hsound : p.Sound := tracks.intact.sound_held.read hread
    have hgathers := tracks.gathers.read tracks.intact.sound_held hread
    have hgroup {key : Key} {row : Row} (hrow : row ∈ m.rows) (hkey : row.key = .group key) :
        (key, row) ∈ p.groups := by
      apply hsound.mem_groups_of_mem_emit _ hkey
      apply (hkeeps.subperm fun _ => List.mergeSort_perm _ _).subset hrow
    rw [hmerge] at intact idle ⊢
    refine ⟨idle, intact, ?_⟩
    constructor
    case joined =>
      intro entry hentry field
      have hshown := shows_iff.mpr (List.mem_map_of_mem hentry)
      obtain ⟨hrow, hkey⟩ := Partition.mem_groups_ofSettled.mp hentry
      rw [since_concat_of_shows hshown, came_append]
      simpa [came] using hgathers.joined _ (hgroup hrow hkey) field
    case fresh =>
      intro key _ hkey
      rw [← shows_iff] at hkey
      rw [since_concat_of_not_shows hkey]
      rfl
  · rw [tracks.intact.merge_of_fault hread] at h
    contradiction

/-- Whatever was published comes from a table in which each group has gathered the rows that came
since it was last missing. -/
theorem Tracks.publications {t : Table} {run : List Publication} {batches : List (List Row)}
    {n : ℕ} {p : Publication} (tracks : t.Tracks run) (h : (t.publications batches)[n]? = some p) :
  ∃ t' : Table, t'.Tracks (run ++ (t.publications batches).take (n + 1)) ∧ t'.snapshot = p.snapshot
    ∧ t'.plan = t.plan
  := by
  induction batches generalizing t run n with
  | nil => simp [Table.publications] at h
  | cons rows batches ih =>
      rw [tracks.idle.publications_cons] at h ⊢
      split at h
      next hnone =>
        rw [if_pos hnone]
        have hmerged := tracks.merge hnone
        cases n with
        | zero =>
            obtain rfl := Option.some.inj h
            exact ⟨_, hmerged, rfl, plan_merge _ _⟩
        | succ n =>
            obtain ⟨t', htracks, hsnapshot, hplan⟩ := ih hmerged h
            use t'
            rw [List.take_succ_cons, ← List.singleton_append, ← List.append_assoc]
            exact ⟨htracks, hsnapshot, hplan.trans (plan_merge _ _)⟩
      next hsome =>
        rw [if_neg hsome]
        have hmerge : (t.merge (.ofRows rows)).1 = t := by
          rcases hread : t.held.read (.ofRows rows) with ⟨q, _ | fault⟩
          · obtain ⟨m, hmerge, -⟩ := tracks.intact.merge_of_read hread
            rw [hmerge] at hsome
            contradiction
          · rw [tracks.intact.merge_of_fault hread]
        rw [hmerge] at h ⊢
        apply ih tracks h

/-- The row of a group has gathered the rows of the group from the payloads since the group was
last missing from a snapshot, joined field by field in their order, and none from before.  If it
was never missing since its first row came, these are all of its rows. -/
theorem slots_joined_since_missing (plan : Plan) (maxResults : Option Sizes) (storeSize : Sizes)
    (batches : List (List Row)) :
  let run := (ofPlan plan maxResults storeSize).publications batches
  ∀ n p, run[n]? = some p → ∀ key, ∀ row ∈ p.snapshot.rowsByParent.rows, row.key = .group key →
    row.slots.length = plan.fieldCount
    ∧ (∃ m, IsLeast {m | m ≤ n ∧ ∀ q ∈ (run.take (n + 1)).drop m, q.snapshot.Shows key} m
      ∧ ∀ field, Slot.joined ((came key ((run.take (n + 1)).drop m)).map (·.slot? field))
        = .ok (row.slot? field))
    ∧ ∀ first ≤ n, came key (run.take first) = [] →
      (∀ q ∈ (run.take (n + 1)).drop first, q.snapshot.Shows key) →
      ∀ field, Slot.joined ((came key (run.take (n + 1))).map (·.slot? field))
        = .ok (row.slot? field)
  := by
  intro run n p hp key row hrow hkey
  obtain ⟨t, tracks, hsnapshot, hplan⟩ := (tracks_ofPlan plan maxResults storeSize).publications hp
  rw [List.nil_append] at tracks
  change t.Tracks (run.take (n + 1)) at tracks
  have hshown : p.snapshot.Shows key := ⟨row, hrow, hkey⟩
  have htake : run.take (n + 1) = run.take n ++ [p] := by
    rw [List.take_add_one, hp]
    rfl
  have hlength : (run.take n).length = n := by
    have := (List.getElem?_eq_some_iff.mp hp).1
    rw [List.length_take]
    omega
  rw [← hsnapshot] at hrow
  have hjoined := tracks.gathers.joined (key, row) (Partition.mem_groups_ofSettled.mpr ⟨hrow, hkey⟩)
  obtain ⟨m, hleast, hdrop⟩ := exists_isLeast_shows hshown (run.take n)
  rw [← htake, hlength] at hleast
  rw [← htake] at hdrop
  rw [← hdrop] at hjoined
  refine ⟨?slots, ⟨m, hleast, hjoined⟩, ?first⟩
  case slots =>
    have := tracks.intact.settled.slots row hrow
    rw [Plan.slotFault?_eq_none_iff, hplan] at this
    apply this
  case first =>
    intro first hfirst hnone hshows field
    have hle : m ≤ first := hleast.2 ⟨hfirst, hshows⟩
    have hbefore : came key ((run.take (n + 1)).take m) = [] := by
      have hsplit := came_append key ((run.take first).take m) ((run.take first).drop m)
      rw [List.take_append_drop, hnone, eq_comm, List.append_eq_nil_iff] at hsplit
      rw [← hsplit.1, List.take_take, List.take_take, Nat.min_eq_left (by omega),
        Nat.min_eq_left hle]
    rw [← List.take_append_drop m (run.take (n + 1)), came_append, hbefore, List.nil_append]
    apply hjoined

/-- Payloads with rows of a group beneath one that comes late, the second payload being refused. -/
def lateParent : List (List Row) :=
  let parent : Key := ⟨[.boolean true]⟩
  let key : Key := ⟨[.boolean true, .null]⟩
  [[⟨.group key, [some (.count 1)]⟩],
    [⟨.group key, [some (.count 7)]⟩, ⟨.group ⟨[.null, .null, .null]⟩, [none]⟩],
    [⟨.group key, [some (.count 2)]⟩, ⟨.group parent, [none]⟩, ⟨.group key, [none]⟩],
    [⟨.group key, [some (.count 3)]⟩]]

theorem slots_joined_since_missing_lateParent :
  let key : Key := ⟨[.boolean true, .null]⟩
  let row : Row := ⟨.group key, [some (.count 5)]⟩
  let run := (ofPlan ⟨1, some 1, some 1, []⟩ none .unbounded).publications lateParent
  (∃ p ∈ run[2]?, row ∈ p.snapshot.rowsByParent.rows)
    ∧ IsLeast {m | m ≤ 2 ∧ ∀ q ∈ (run.take 3).drop m, q.snapshot.Shows key} 1
    ∧ (came key ((run.take 3).drop 1)).map (·.slot? 0) = [some (.count 2), none, some (.count 3)]
    ∧ Slot.joined ((came key ((run.take 3).drop 1)).map (·.slot? 0)) = .ok (row.slot? 0)
  := by
  intro key row run
  have hlast : ∃ p ∈ run[2]?, row ∈ p.snapshot.rowsByParent.rows := by decide +kernel
  have hleast : IsLeast {m | m ≤ 2 ∧ ∀ q ∈ (run.take 3).drop m, q.snapshot.Shows key} 1 := by
    have hmissing : ¬ ∀ q ∈ (run.take 3).drop 0, q.snapshot.Shows key := by decide +kernel
    constructor
    · exact ⟨by decide, by decide +kernel⟩
    · rintro m ⟨-, hm⟩
      by_contra hless
      obtain rfl : m = 0 := by omega
      apply hmissing hm
  obtain ⟨p, hp, hrow⟩ := hlast
  obtain ⟨-, ⟨m, hm, hjoined⟩, -⟩ :=
    slots_joined_since_missing _ _ _ lateParent 2 p hp key row hrow rfl
  obtain rfl := hm.unique hleast
  use ⟨p, hp, hrow⟩, hleast, by decide +kernel
  apply hjoined

end Table

end Collate
