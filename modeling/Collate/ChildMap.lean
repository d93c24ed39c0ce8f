import Collate.Row
import Collate.Sizes

/-!
# Child maps

A `ChildMap` holds rows beneath the keys of their parents.  It is seen through
`ChildMap.children`, the rows beneath a key; the order of its entries says nothing.
-/

namespace Collate

/-- Rows by the key of their parent. -/
structure ChildMap where
  entries : List (Key × List Row)
  deriving DecidableEq, Inhabited, Repr

namespace ChildMap

def empty : ChildMap := ⟨[]⟩

/-- The rows beneath a key, if the map has an entry for it. -/
def find? (m : ChildMap) (parent : Key) : Option (List Row) :=
  m.entries.lookup parent

/-- The rows beneath a key. -/
def children (m : ChildMap) (parent : Key) : List Row :=
  (m.find? parent).getD []

/-- Adds a row behind the rows of a parent. -/
def appendTo (parent : Key) (row : Row) : List (Key × List Row) → List (Key × List Row)
  | [] => [(parent, [row])]
  | (k, rows) :: rest =>
    if k = parent then (k, rows ++ [row]) :: rest else (k, rows) :: appendTo parent row rest

/-- Adds a row behind the other rows of its parent. -/
def push (m : ChildMap) (row : Row) : ChildMap :=
  ⟨appendTo row.key.parent row m.entries⟩

/-- The map without the entry of a key. -/
def erase (m : ChildMap) (parent : Key) : ChildMap :=
  ⟨m.entries.filter fun entry => entry.1 ≠ parent⟩

/-- All rows, entry by entry. -/
def rows (m : ChildMap) : List Row :=
  m.entries.flatMap (·.2)

/-- How many rows there are. -/
def size (m : ChildMap) : Nat :=
  m.rows.length

/-- The rows of every entry changed by `f`. -/
def mapRows (m : ChildMap) (f : List Row → List Row) : ChildMap :=
  ⟨m.entries.map fun (k, rows) => (k, f rows)⟩

/-- The keys of the group rows in a list of rows. -/
def groupKeys (rows : List Row) : List Key :=
  rows.filterMap fun row => row.key.key?

theorem length_groupKeys_le (rows : List Row) :
  (groupKeys rows).length ≤ rows.length
  := List.length_filterMap_le _ _

/-- Taking out an entry takes out its rows. -/
theorem size_erase_add_le (m : ChildMap) {parent : Key} {rows : List Row}
    (h : m.find? parent = some rows) :
  (m.erase parent).size + rows.length ≤ m.size
  := by
  obtain ⟨entries⟩ := m
  simp only [find?, erase, size, ChildMap.rows] at *
  have drops (l : List (Key × List Row)) :
      ((l.filter fun entry => entry.1 ≠ parent).flatMap (·.2)).length
        ≤ (l.flatMap (·.2)).length := by
    induction l with
    | nil => simp
    | cons entry l ih =>
      by_cases same : entry.1 = parent <;> simp [same] at ih ⊢ <;> omega
  induction entries with
  | nil => simp at h
  | cons entry rest ih =>
    obtain ⟨k, present⟩ := entry
    rw [List.lookup_cons] at h
    split at h
    next same =>
      have hrest := drops rest
      simp only [beq_iff_eq] at same
      simp only [Option.some.injEq] at h
      simp [same, h] at hrest ⊢
      omega
    next other =>
      have hrest := ih h
      have hk : k ≠ parent := fun e => by simp [e] at other
      simp [hk] at hrest ⊢
      omega

end ChildMap

end Collate
