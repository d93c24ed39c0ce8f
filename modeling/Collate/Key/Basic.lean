import Collate.Val

/-!
# Group keys

A `Key` is the path of group values from the top of a table down to one group, one value for
each depth.  The empty key is the root, the parent of every row at the top.
-/

namespace Collate

/-- The path of a group: its value at each depth, outermost first. -/
structure Key where
  values : List Val
  deriving DecidableEq, Inhabited, Repr

namespace Key

/-- The parent of all top-level rows. -/
def root : Key := ⟨[]⟩

def length (k : Key) : Nat :=
  k.values.length

def isRoot (k : Key) : Bool :=
  k.values.isEmpty

/-- The key without its last value; the root is its own parent. -/
def parent (k : Key) : Key :=
  ⟨k.values.dropLast⟩

/-- The key one level down. -/
def child (k : Key) (v : Val) : Key :=
  ⟨k.values ++ [v]⟩

@[simp]
theorem parent_child (k : Key) (v : Val) :
  (k.child v).parent = k
  := by
  simp [parent, child]

@[simp]
theorem parent_root :
  root.parent = root
  := rfl

/-- Keys are ordered value by value, a key before those that extend it. -/
def order (a b : Key) : Ordering :=
  compare a.values b.values

instance : Ord Key := ⟨order⟩

/-- Keys are equal if they have equally many values, and these are equal one by one. -/
def equal (a b : Key) : Bool :=
  a.values.isEqv b.values Val.equal

/-- Compares two paths up to the first values that are not found equal. -/
def partialCompare? : List Val → List Val → Option Ordering
  | [], [] => some .eq
  | [], _ :: _ => some .lt
  | _ :: _, [] => some .gt
  | v :: vs, w :: ws =>
    match v.partialOrder? w with
    | some .eq => partialCompare? vs ws
    | decided => decided

/-- The comparison of keys as one that may be without an answer. -/
def partialOrder? (a b : Key) : Option Ordering :=
  partialCompare? a.values b.values

/-- The length of a key and the digests of its values. -/
def digest (k : Key) : List UInt8 :=
  littleEndian 8 k.length ++ k.values.flatMap Val.digest

end Key

end Collate
