import Collate.Builder
import Collate.Partition
import Collate.Signal

/-!
# Tables

A `Table` merges the payloads of many producers into one snapshot.  Payloads wait in a queue;
whoever holds the merge gate takes them out one at a time and folds each into the rows retained
from the last merge.  A merge either publishes a new snapshot or leaves the table as it was.
A table that has been cleared is empty for good.
-/

namespace Collate

/-- The state of a table. -/
structure Table where
  plan : Plan
  /-- How many rows a response shows under each parent, if that is bounded. -/
  maxResults : Option Sizes
  /-- How many rows the table holds under each parent. -/
  storeSize : Sizes
  /-- How many rows have been merged. -/
  total : UInt64
  /-- The payloads that wait to be merged, the oldest first. -/
  pending : List Payload
  /-- Held by whoever merges. -/
  gate : Gate
  cleared : Bool
  /-- The rows with which the next payload is merged. -/
  retained : Payload
  /-- The last published snapshot. -/
  snapshot : Snapshot

namespace Table

/-- A table with nothing in it. -/
def ofPlan (plan : Plan) (maxResults : Option Sizes) (storeSize : Sizes) : Table :=
  ⟨plan, maxResults, storeSize, 0, [], .free, false, [], .empty⟩

/-- The empty table for the given fields. -/
def create (fields : List Field) (showDetail : Bool) (maxResults : Option Sizes)
    (storeSize : Sizes) : Except Error Table := do
  let plan ← Plan.compile fields showDetail
  return ofPlan plan maxResults storeSize

/-! ### Merging -/

/-- The rows of two payloads combined by group: the first fault, or the combined rows. -/
def reduce (plan : Plan) (retained payload : Payload) : Except Error Payload :=
  match (Partition.empty plan).read retained with
  | (_, some fault) => .error fault
  | (p, none) =>
    match p.read payload with
    | (_, some fault) => .error fault
    | (p, none) => .ok p.emit

/-- The snapshot of a payload of combined rows, and the rows it retains. -/
def publish (plan : Plan) (storeSize : Sizes) (rows : Payload) (total : UInt64) :
    Except Error (Payload × Snapshot) :=
  match (Builder.empty plan).read rows with
  | (_, some fault) => .error fault
  | (b, none) =>
    let b := b.trim storeSize
    .ok (b.remaining, b.create total)

/-- Folds a payload into retained rows. -/
def fold (plan : Plan) (storeSize : Sizes) (retained payload : Payload) (total : UInt64) :
    Except Error (Payload × Snapshot) := do
  publish plan storeSize (← reduce plan retained payload) total

/-- Merges a payload.  If that fails, the rows to go on with are those of the last snapshot. -/
def merge (t : Table) (payload : Payload) : Table × Option Error :=
  let total := t.total + UInt64.ofNat payload.length
  match fold t.plan t.storeSize t.retained payload total with
  | .ok (retained, snapshot) => ({ t with retained, snapshot, total }, none)
  | .error fault => ({ t with retained := t.snapshot.payload }, some fault)

/-- Drops the payloads that wait. -/
def discard (t : Table) : Table :=
  { t with pending := [] }

/-- Drops all rows, merged or waiting, for good. -/
def clear (t : Table) : Table :=
  { t with cleared := true, pending := [], total := 0, retained := [], snapshot := .empty }

/-! ### What a table answers -/

/-- Whether a payload waits or is being merged. -/
def busy (t : Table) : Bool :=
  !t.pending.isEmpty || t.gate.held

/-- Whether further rows could not change what the table shows: without sorting and grouping
any rows are as good as any others, once there are enough. -/
def canStop (t : Table) : Bool :=
  if t.plan.hasSort || t.plan.hasGroups then false
  else
    match t.maxResults with
    | none => false
    | some sizes => sizes.size 0 ≤ t.snapshot.total

end Table

end Collate
