import Collate.Plan

/-!
# Partitions

A `Partition` reads rows and combines those that are queued under one group key.  Detail rows
pass through it as they come; grouped rows are kept in the order in which their keys were first
seen.  A read stops at the first row that is refused.  `Partition.emit` gives the detail rows,
then the combined rows from the shallowest depth to the deepest.
-/

namespace Collate

namespace Slot

/-- Joins two slots, an empty one yielding to the other; nothing if two present accumulators
differ in kind. -/
def combine? : Slot → Slot → Option Slot
  | a, none => some a
  | none, b => some b
  | some a, some b =>
    match a.combine b with
    | .ok c => some (some c)
    | .error _ => none

/-- Joins two lists of slots field by field, up to the first field whose accumulators differ in
kind.  Gives the slots reached so far, and that field. -/
def combineAll (field : Nat) : List Slot → List Slot → List Slot × Option Nat
  | a :: as, b :: bs =>
    match combine? a b with
    | none => (a :: as, some field)
    | some c =>
      let (cs, fault) := combineAll (field + 1) as bs
      (c :: cs, fault)
  | as, _ => (as, none)

end Slot

/-- Adds a row to the rows combined so far: to the row of its key, or behind all rows as the
first of its key.  Gives the field whose accumulators differ in kind, if there is one. -/
def combineInto (key : Key) (row : Row) : List (Key × Row) → List (Key × Row) × Option Nat
  | [] => ([(key, row)], none)
  | (k, present) :: rest =>
    if k = key then
      let (slots, fault) := Slot.combineAll 0 present.slots row.slots
      ((k, { present with slots }) :: rest, fault)
    else
      let (rest, fault) := combineInto key row rest
      ((k, present) :: rest, fault)

/-- The rows read so far. -/
structure Partition where
  plan : Plan
  /-- The detail rows, in the order of arrival. -/
  details : Payload
  /-- One row for each group key, in the order in which the keys were first seen. -/
  groups : List (Key × Row)

namespace Partition

def empty (plan : Plan) : Partition :=
  ⟨plan, [], []⟩

def passThrough (p : Partition) (key : RowKey) (row : Row) : Partition :=
  { p with details := p.details ++ [(key, row)] }

/-- Reads one row queued under `key`. -/
def collect (p : Partition) (key : RowKey) (row : Row) : Partition × Option Error :=
  match p.plan.slotFault? row with
  | some fault => (p, some fault)
  | none =>
    match key with
    | .detail _ => (p.passThrough key row, none)
    | .group group =>
      if group.isRoot then
        -- without a group value the row is a detail row at the top
        (p.passThrough (.detail .root) { row with key := .detail .root }, none)
      else if p.plan.groupLevels < group.length then
        (p, some (.invalidData (.tooDeep group)))
      else
        let (groups, fault) := combineInto group row p.groups
        ({ p with groups }, fault.map .incompatible)

/-- Reads rows up to the first one that is refused. -/
def read (p : Partition) : Payload → Partition × Option Error
  | [] => (p, none)
  | (key, row) :: rest =>
    match p.collect key row with
    | (p, none) => p.read rest
    | (p, some fault) => (p, some fault)

/-- The combined rows of one depth. -/
def atDepth (p : Partition) (depth : Nat) : List Row :=
  (p.groups.filter fun (key, _) => key.length = depth + 1).map (·.2)

/-- The rows that were read: details in the order of arrival, then one row for each group,
shallowest depth first, each queued under its own key. -/
def emit (p : Partition) : Payload :=
  p.details ++ Payload.ofRows ((List.range p.plan.groupLevels).flatMap p.atDepth)

end Partition

end Collate
