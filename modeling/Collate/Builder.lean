import Collate.Plan
import Collate.Snapshot

/-!
# Building a snapshot

A `Builder` takes rows beneath their parents, sorts the rows of each parent by the plan, and
cuts them to the size of their depth.  Rows that compare equal keep the order of arrival.
`Builder.trim` keeps what is reached from the root through rows that are themselves kept, so
that nothing remains beneath a group that was cut away.
-/

namespace Collate

/-- A snapshot in the making. -/
structure Builder where
  plan : Plan
  rowsByParent : ChildMap
  /-- Whether no row has come since the rows were last sorted. -/
  sorted : Bool

namespace Builder

def empty (plan : Plan) : Builder :=
  ⟨plan, .empty, true⟩

/-- Takes rows up to the first that has not one slot for each field.  Only a read that comes
to its end marks the rows as unsorted. -/
def read (b : Builder) : Payload → Builder × Option Error
  | [] => ({ b with sorted := false }, none)
  | (_, row) :: rest =>
    match b.plan.slotFault? row with
    | some fault => (b, some fault)
    | none => { b with rowsByParent := b.rowsByParent.push row }.read rest

/-- Sorts the rows of each parent, unless they are sorted or the plan does not sort. -/
def sort (b : Builder) : Builder :=
  if b.sorted then b
  else if b.plan.hasSort then
    { b with
      rowsByParent := b.rowsByParent.mapRows (·.mergeSort b.plan.mayPrecede)
      sorted := true }
  else { b with sorted := true }

/-- Visits the waiting parents one after the other: takes the rows of a parent out of
`source`, cuts them, keeps them, and lets the keys of the groups among them wait in turn. -/
def visit (sizes : Sizes) (source : ChildMap) (kept : List (Key × List Row)) :
    List Key → List (Key × List Row)
  | [] => kept
  | parent :: waiting =>
    match _found : source.find? parent with
    | none => visit sizes source kept waiting
    | some rows =>
      let rows' := sizes.cut parent.length rows
      visit sizes (source.erase parent) (kept ++ [(parent, rows')])
        ((ChildMap.groupKeys rows').reverse ++ waiting)
termination_by waiting => source.size + waiting.length
decreasing_by
  · simp
  · have hsize := source.size_erase_add_le _found
    have hkeys := ChildMap.length_groupKeys_le (sizes.cut parent.length rows)
    have hcut : (sizes.cut parent.length rows).length ≤ rows.length := by
      simp only [Sizes.cut, List.length_take]
      omega
    simp only [List.length_append, List.length_reverse, List.length_cons]
    omega

/-- Sorts the rows, then keeps those reached from the root, cut to the size of their depth. -/
def trim (b : Builder) (sizes : Sizes) : Builder :=
  let b := b.sort
  { b with rowsByParent := ⟨visit sizes b.rowsByParent [] [.root]⟩ }

/-- How many rows there are. -/
def size (b : Builder) : Nat :=
  b.rowsByParent.size

/-- The rows that are there, as a payload for the next merge. -/
def remaining (b : Builder) : Payload :=
  .ofRows b.rowsByParent.rows

/-- The finished snapshot. -/
def create (b : Builder) (total : UInt64) : Snapshot :=
  let b := b.sort
  ⟨b.rowsByParent, b.size, total⟩

end Builder

end Collate
