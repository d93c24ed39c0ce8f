/-!
# Fields

A `Field` is a column of a table as a request declares it: its name, the expression it shows,
and whether rows are sorted or grouped by it.
-/

namespace Collate

inductive SortDirection where
  | ascending
  | descending
  deriving DecidableEq, Inhabited, Repr

/-- How rows are sorted by a field.  Fields of lesser `order` take precedence. -/
structure SortSpec where
  order : UInt32
  direction : SortDirection
  deriving DecidableEq, Inhabited, Repr

/-- A column of a table. -/
structure Field where
  name : String
  expression : Option String
  sort : Option SortSpec
  /-- The depth at which rows are grouped by the field, `0` being the outermost. -/
  group : Option UInt64
  deriving DecidableEq, Inhabited, Repr

namespace Field

/-- A field that is only shown. -/
def named (name : String) : Field :=
  ⟨name, none, none, none⟩

def withExpression (f : Field) (expression : String) : Field :=
  { f with expression := some expression }

def sortedBy (f : Field) (order : UInt32) (direction : SortDirection) : Field :=
  { f with sort := some ⟨order, direction⟩ }

def groupedAt (f : Field) (depth : UInt64) : Field :=
  { f with group := some depth }

/-- The depths at which some field groups, in field order. -/
def groupDepths (fields : List Field) : List Nat :=
  fields.filterMap fun f => f.group.map UInt64.toNat

end Field

end Collate
