import Collate.Error
import Collate.Field
import Collate.Row

/-!
# Plans

A `Plan` is what the fields of a table come to: how deep rows are grouped, and by which fields
they are sorted.  `Plan.compile` refuses fields whose group depths leave a gap, and
`Plan.compare` is the order of rows.
-/

namespace Collate

/-- One field by which rows are sorted. -/
structure SortKey where
  field : Nat
  order : UInt32
  direction : SortDirection
  deriving DecidableEq, Inhabited, Repr

namespace SortKey

/-- Compares two slots.  An empty slot comes before a present one in either direction; the
direction only reverses the order of two present ones. -/
def compareSlots (direction : SortDirection) : Slot → Slot → Ordering
  | none, none => .eq
  | none, some _ => .lt
  | some _, none => .gt
  | some a, some b =>
    match direction with
    | .ascending => a.order b
    | .descending => b.order a

/-- Compares two rows by one field. -/
def compareRows (s : SortKey) (a b : Row) : Ordering :=
  compareSlots s.direction (a.slot? s.field) (b.slot? s.field)

/-- Inserts a sort key behind all keys of lesser or equal order. -/
def insert (s : SortKey) (keys : List SortKey) : List SortKey :=
  keys.takeWhile (·.order ≤ s.order) ++ s :: keys.dropWhile (·.order ≤ s.order)

end SortKey

/-- What the fields of a table come to. -/
structure Plan where
  fieldCount : Nat
  /-- The deepest depth at which rows are grouped, if they are. -/
  maxGroupDepth : Option Nat
  /-- The deepest depth at which rows are shown, if any are. -/
  maxDepth : Option Nat
  /-- The fields by which rows are sorted, the most significant first. -/
  sorts : List SortKey
  deriving DecidableEq, Inhabited, Repr

namespace Plan

/-- The least natural number that is not in a list. -/
def leastMissing (ns : List Nat) : Nat :=
  ((List.range (ns.length + 1)).find? fun n => !ns.contains n).getD 0

/-- The sort keys of the fields, each inserted in field order. -/
def sortKeys (fields : List Field) : List SortKey :=
  fields.zipIdx.foldl (fun keys (f, i) =>
    match f.sort with
    | none => keys
    | some s => SortKey.insert ⟨i, s.order, s.direction⟩ keys) []

/-- The depth at which detail rows stand is one below the deepest group. -/
def depthShown (maxGroupDepth : Option Nat) (showDetail : Bool) : Option Nat :=
  match maxGroupDepth, showDetail with
  | some deepest, true => some (deepest + 1)
  | none, true => some 0
  | deepest, false => deepest

/-- The plan of the given fields, if their group depths leave no gap. -/
def compile (fields : List Field) (showDetail : Bool) : Except Error Plan :=
  let depths := Field.groupDepths fields
  let plan : Plan :=
    ⟨fields.length, depths.max?, depthShown depths.max? showDetail, sortKeys fields⟩
  match depths.max? with
  | none => .ok plan
  | some deepest =>
    let missing := leastMissing depths
    if missing < deepest then .error (.invalidConfig (.depthGap deepest missing))
    else .ok plan

def hasGroups (p : Plan) : Bool :=
  p.maxGroupDepth.isSome

def hasSort (p : Plan) : Bool :=
  !p.sorts.isEmpty

/-- How many depths of groups there are. -/
def groupLevels (p : Plan) : Nat :=
  match p.maxGroupDepth with
  | none => 0
  | some deepest => deepest + 1

/-- Compares two rows by the sort keys, the first that tells them apart deciding. -/
def compare (p : Plan) (a b : Row) : Ordering :=
  p.sorts.foldr (fun s rest => (s.compareRows a b).then rest) .eq

/-- Whether a row may stand before another one. -/
def mayPrecede (p : Plan) (a b : Row) : Bool :=
  (p.compare a b).isLE

/-- The error for a row that has not one slot for each field. -/
def slotFault? (p : Plan) (row : Row) : Option Error :=
  if row.slots.length = p.fieldCount then none
  else some (.invalidData (.slotCount row.slots.length p.fieldCount))

end Plan

end Collate
