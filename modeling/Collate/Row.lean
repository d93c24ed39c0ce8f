import Collate.Accumulator
import Collate.Key.Basic

/-!
# Rows

A row is known by its `RowKey`.  Rows with one group key speak about the same group and are
combined; a detail row has no key of its own, only the group beneath which it stands, and is
never combined.  A `Payload` is a batch of rows, each queued under a row key that is normally
its own.
-/

namespace Collate

/-- What a row is known by. -/
inductive RowKey where
  /-- The row of a group, known by the key of the group. -/
  | group (key : Key)
  /-- A row of its own beneath the group with key `parent`. -/
  | detail (parent : Key)
  deriving DecidableEq, Inhabited, Repr

namespace RowKey

/-- The row key for a list of group values.  Without any value there is no group, so the row
is a detail row at the top. -/
def ofValues (values : List Val) : RowKey :=
  if values.isEmpty then .detail .root else .group ⟨values⟩

def isDetail : RowKey → Bool
  | .group _ => false
  | .detail _ => true

/-- The key of the row's own group, if it has one. -/
def key? : RowKey → Option Key
  | .group key => some key
  | .detail _ => none

/-- The key of the group beneath which the row stands. -/
def parent : RowKey → Key
  | .group key => key.parent
  | .detail parent => parent

/-- How many groups enclose the row. -/
def depth : RowKey → Nat
  | .group key => key.length - 1
  | .detail parent => parent.length

end RowKey

/-- What a row holds for one field: nothing, or an accumulator. -/
abbrev Slot := Option Accumulator

/-- A row: its key and one slot for each field. -/
structure Row where
  key : RowKey
  slots : List Slot
  deriving DecidableEq, Inhabited, Repr

namespace Row

/-- The accumulator that the row holds for a field. -/
def slot? (r : Row) (field : Nat) : Slot :=
  r.slots[field]?.join

end Row

/-- A batch of rows, each with the row key under which it is queued. -/
abbrev Payload := List (RowKey × Row)

/-- The payload in which every row is queued under its own key. -/
def Payload.ofRows (rows : List Row) : Payload :=
  rows.map fun row => (row.key, row)

end Collate
