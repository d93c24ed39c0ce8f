import Collate.Proofs.Addresses

/-!
# The pages of a response

A result shows each row that the bounds permit once, a group before what stands beneath it, and of
these rows the stretch that was asked for.  Stretches that follow on one another and reach far
enough show all rows between them.
-/

namespace Collate

namespace Window

/-- Stretches of which the first starts where it should, and each other where the one before
ends. -/
def Consecutive (start : ℕ) : List Window → Prop
  | [] => True
  | w :: windows => w.offset.toNat = start ∧ Consecutive (start + w.length.toNat) windows

theorem map_apply {α β : Type} (f : α → β) (w : Window) (rows : List α) :
  (w.apply rows).map f = w.apply (rows.map f)
  := by
  rw [apply, apply, List.map_take, List.map_drop]

/-- Consecutive stretches come to one. -/
theorem Consecutive.flatMap_apply {α : Type} {start : ℕ} {windows : List Window}
    (consecutive : Consecutive start windows) (rows : List α) :
  windows.flatMap (·.apply rows)
    = (rows.drop start).take (windows.map (·.length.toNat)).sum
  := by
  induction windows generalizing start with
  | nil => simp
  | cons w windows ih =>
      obtain ⟨rfl, consecutive⟩ := consecutive
      rw [List.flatMap_cons, ih consecutive, List.map_cons, List.sum_cons, List.take_add,
        List.drop_drop]
      rfl

end Window

namespace TableResult

/-- The range of a result changes nothing but which of the rows are shown. -/
theorem ofSnapshot_range (component : Component) (range : Option Window) (s : Snapshot) :
  let shown := (s.walk (component.maxResults.getD .unbounded) .root).map ShownRow.ofRow
  let result := ofSnapshot { component with range } s
  result.rows = (range.map (·.apply shown)).getD shown
    ∧ result.range = ⟨(range.map Window.offset).getD 0, UInt64.ofNat result.rows.length⟩
    ∧ result.totalResults = UInt64.ofNat shown.length
  := by
  intro shown result
  refine ⟨?rows, ?range, ?total⟩
  case rows =>
    cases range with
    | none => rfl
    | some w => apply w.map_apply
  case range =>
    simp only [result, ofSnapshot, List.length_map]
  case total =>
    simp only [result, shown, ofSnapshot, List.length_map]

end TableResult

namespace Table

variable {plan : Plan} {maxResults : Option Sizes} {storeSize : Sizes} {events : List Event}
  {t : Table}

/-- The result of a component over the snapshot of a table shows the rows that the bounds permit,
once each and in the order of their addresses, of which each row has one; without bounds it shows
as many as there are.  Its range only says which of them are shown, and consecutive ranges that
reach as far as the rows do show all of them. -/
theorem result_pages_permitted_rows (path : Path (ofPlan plan maxResults storeSize) events t)
    (own : ∀ payload ∈ arrivals events, payload.OwnKeyed) (component : Component) :
  let s := t.snapshot
  let limits := component.maxResults.getD .unbounded
  let shown := (s.walk limits .root).map ShownRow.ofRow
  (∃ addresses, s.Enumerates limits .root addresses (s.walk limits .root)
      ∧ shown.map (·.depth) = addresses.map fun a => UInt64.ofNat a.groups.length)
    ∧ (∀ key, s.children key ≠ [] → ∃! groups, s.keyAt? .root groups = some key)
    ∧ (∀ a row, s.rowAt? .root a = some row →
      s.keyAt? .root a.groups = some row.key.parent ∧ row.key.depth = a.groups.length)
    ∧ (component.maxResults = none → shown.length = s.size)
    ∧ (∀ range, let result := TableResult.ofSnapshot { component with range } s
      result.rows = (range.map (·.apply shown)).getD shown
        ∧ result.range = ⟨(range.map Window.offset).getD 0, UInt64.ofNat result.rows.length⟩
        ∧ result.totalResults = UInt64.ofNat shown.length)
    ∧ ∀ windows, Window.Consecutive 0 windows →
      shown.length ≤ (windows.map (·.length.toNat)).sum →
        (windows.flatMap fun w => (TableResult.ofSnapshot (component.withRange w) s).rows) = shown
  := by
  intro s limits shown
  have wellFormed : s.WellFormed plan storeSize := path.wellFormed
  have keyed : s.Keyed plan := by
    have := (path.intact own).keyed
    rwa [path.plan_eq.1] at this
  have ranges := fun range => TableResult.ofSnapshot_range component range s
  obtain ⟨addresses, enumerated⟩ := wellFormed.exists_enumerates keyed limits
  refine ⟨⟨addresses, enumerated, ?depths⟩, fun _ => Snapshot.existsUnique_keyAt? wellFormed keyed,
    fun _ _ => Snapshot.parent_of_rowAt? wellFormed keyed, ?size, ranges, ?pages⟩
  case depths =>
    rw [List.map_map]
    apply enumerated.map
    intro a row hrow
    rw [← (Snapshot.parent_of_rowAt? wellFormed keyed hrow).2]
    rfl
  case size =>
    intro unbounded
    simp only [shown, limits, unbounded, List.length_map]
    apply Snapshot.length_walk_unbounded wellFormed keyed
  case pages =>
    intro windows consecutive covers
    have hrows : ∀ w ∈ windows,
        (TableResult.ofSnapshot (component.withRange w) s).rows = w.apply shown := by
      intro w _
      apply (ranges (some w)).1
    rw [List.flatMap_congr hrows, consecutive.flatMap_apply, List.drop_zero,
      List.take_of_length_le covers]

/-- Two groups with groups and details beneath them, in two payloads. -/
def visits : List (List Row) :=
  let day (b : Bool) : Key := ⟨[.boolean b]⟩
  let hour (b : Bool) (n : Int64) : Key := (day b).child (.long n)
  [[⟨.group (day true), [some (.count 3)]⟩, ⟨.group (hour true 9), [some (.count 2)]⟩,
      ⟨.detail (hour true 9), [none]⟩, ⟨.detail (hour true 9), [none]⟩],
    [⟨.group (day false), [some (.count 1)]⟩, ⟨.group (day true), [some (.count 1)]⟩,
      ⟨.group (hour true 7), [some (.count 1)]⟩]]

theorem result_pages_permitted_rows_visits :
  let fresh := ofPlan ⟨1, some 1, some 2, []⟩ none .unbounded
  let calls := visits.map fun rows =>
    Call.add (.ofRows rows) [.mk [] false, .mk [] false, .mk [] false] false
  let s := (fresh.runAll calls).1.snapshot
  let component := Component.ofFields "visits" [.named "visits"]
  let page (offset length : UInt64) :=
    TableResult.ofSnapshot (component.withRange ⟨offset, length⟩) s
  (page 2 2).totalResults = 6
    ∧ (page 0 2).rows ++ ((page 2 3).rows ++ (page 5 9).rows) = (page 0 6).rows
    ∧ ∃ addresses, s.Enumerates .unbounded .root addresses (s.walk .unbounded .root)
      ∧ addresses.length = 6
  := by
  intro fresh calls s component page
  have path : Path fresh (events (fresh.traceAll calls)) (fresh.runAll calls).1 :=
    path_trace.2.1 fresh calls
  have own : ∀ payload ∈ arrivals (events (fresh.traceAll calls)), payload.OwnKeyed := by
    have brought : arrivals (events (fresh.traceAll calls)) = visits.map .ofRows := by
      decide +kernel
    rw [brought]
    intro payload hpayload
    obtain ⟨rows, -, rfl⟩ := List.mem_map.mp hpayload
    apply Payload.ownKeyed_ofRows
  obtain ⟨⟨addresses, enumerated, hdepths⟩, -, -, hall, hranges, hpages⟩ :=
    result_pages_permitted_rows path own component
  have hsize : s.size = 6 := by decide +kernel
  have hlength := (hall rfl).trans hsize
  refine ⟨?total, ?pages, addresses, enumerated, ?addresses⟩
  case total =>
    apply (hranges (some ⟨2, 2⟩)).2.2.trans
    rw [hlength]
    rfl
  case pages =>
    have three := hpages [⟨0, 2⟩, ⟨2, 3⟩, ⟨5, 9⟩] ⟨rfl, rfl, rfl, trivial⟩
      (by rw [hlength]; decide)
    have one := hpages [⟨0, 6⟩] ⟨rfl, trivial⟩ (by rw [hlength]; decide)
    simp only [List.flatMap_cons, List.flatMap_nil, List.append_nil] at three one
    rw [one]
    apply three
  case addresses =>
    have heach := congrArg List.length hdepths
    simp only [List.length_map] at heach hlength
    rw [← heach, hlength]

end Table

end Collate
