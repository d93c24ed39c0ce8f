import Collate.ChildMap

/-!
# Snapshots

A `Snapshot` is what a table shows at one moment: rows beneath their parents, sorted and cut,
with the number of rows held and the number of rows ever merged.
-/

namespace Collate

/-- The rows of a table at one moment. -/
structure Snapshot where
  rowsByParent : ChildMap
  /-- How many rows are held. -/
  size : Nat
  /-- How many rows have been merged, those cut away included. -/
  total : UInt64
  deriving DecidableEq, Inhabited, Repr

namespace Snapshot

def empty : Snapshot := ⟨.empty, 0, 0⟩

/-- The rows beneath a key, in order. -/
def children (s : Snapshot) (parent : Key) : List Row :=
  s.rowsByParent.children parent

/-- The rows at the top, in order. -/
def rootRows (s : Snapshot) : List Row :=
  s.children .root

/-- The rows held, as a payload for the next merge. -/
def payload (s : Snapshot) : Payload :=
  .ofRows s.rowsByParent.rows

end Snapshot

end Collate
