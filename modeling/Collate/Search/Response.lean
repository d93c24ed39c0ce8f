import Collate.Search.Request
import Collate.Snapshot

/-!
# Search responses

A response shows a snapshot as a list of rows: each group followed by what stands beneath it,
no more rows under a parent than the request allows, and of that list the stretch asked for.
The walk only goes down to keys longer than the one it comes from, so it ends on any snapshot.
-/

namespace Collate

/-- A row as it is shown: the key of its group, if it is not a detail row, its depth, and the
value of each slot that holds one. -/
structure ShownRow where
  groupKey : Option Key
  depth : UInt64
  values : List (Option Val)
  deriving DecidableEq, Inhabited, Repr

/-- A row with its accumulators evaluated. -/
def ShownRow.ofRow (row : Row) : ShownRow :=
  ⟨row.key.key?, UInt64.ofNat row.key.depth, row.slots.map (·.map Accumulator.eval)⟩

/-- The rows shown for one component. -/
structure TableResult where
  component : String
  rows : List ShownRow
  /-- The stretch that the rows fill. -/
  range : Window
  /-- How many rows there are to take a stretch of. -/
  totalResults : UInt64
  deriving DecidableEq, Inhabited, Repr

/-- The answer to a request. -/
structure SearchResponse where
  results : List TableResult
  highlights : List String
  errors : List String
  complete : Bool
  deriving DecidableEq, Inhabited, Repr

namespace Snapshot

/-- The length of the longest group key among the rows held. -/
def longestKey (s : Snapshot) : Nat :=
  ((ChildMap.groupKeys s.rowsByParent.rows).map Key.length).foldr max 0

theorem mem_rows_of_mem_children {s : Snapshot} {parent : Key} {row : Row}
    (h : row ∈ s.children parent) :
  row ∈ s.rowsByParent.rows
  := by
  simp only [children, ChildMap.children, ChildMap.find?, ChildMap.rows,
    List.mem_flatMap] at *
  cases found : s.rowsByParent.entries.lookup parent with
  | none => simp [found] at h
  | some rows =>
    obtain ⟨before, after, split, -⟩ := List.lookup_eq_some_iff.1 found
    refine ⟨(parent, rows), ?_, by simpa [found] using h⟩
    simp_all

/-- No group key among the rows held is longer than the longest. -/
theorem length_le_longestKey {s : Snapshot} {row : Row} {key : Key}
    (h : row ∈ s.rowsByParent.rows) (hkey : row.key = .group key) :
  key.length ≤ s.longestKey
  := by
  have le_foldr (ns : List Nat) (n : Nat) (hn : n ∈ ns) : n ≤ ns.foldr max 0 := by
    induction ns with
    | nil => simp at hn
    | cons m ns ih =>
      rcases List.mem_cons.1 hn with rfl | hn
      · simp only [List.foldr_cons]
        omega
      · have := ih hn
        simp only [List.foldr_cons]
        omega
  apply le_foldr
  apply List.mem_map.2 ⟨key, ?_, rfl⟩
  exact List.mem_filterMap.2 ⟨row, h, by simp [hkey, RowKey.key?]⟩

/-- The rows beneath a parent as they are shown: under each parent no more than its depth
allows, and each group followed by what is shown beneath it. -/
def walk (s : Snapshot) (limits : Sizes) (parent : Key) : List Row :=
  (limits.cut parent.length (s.children parent)).attach.flatMap fun ⟨row, _shown⟩ =>
    row :: match _isGroup : row.key with
      | .group key => if _deeper : parent.length < key.length then walk s limits key else []
      | .detail _ => []
termination_by s.longestKey - parent.length
decreasing_by
  have held := mem_rows_of_mem_children (List.mem_of_mem_take _shown)
  have := length_le_longestKey held _isGroup
  omega

end Snapshot

/-- The result of a component over a snapshot. -/
def TableResult.ofSnapshot (component : Component) (s : Snapshot) : TableResult :=
  let all := s.walk (component.maxResults.getD .unbounded) .root
  let rows := (component.range.map (·.apply all)).getD all
  let offset := (component.range.map Window.offset).getD 0
  ⟨component.id, rows.map .ofRow, ⟨offset, UInt64.ofNat rows.length⟩, UInt64.ofNat all.length⟩

end Collate
