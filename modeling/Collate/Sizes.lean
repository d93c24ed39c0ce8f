/-!
# Sizes by depth

A `Sizes` bounds the number of rows under a parent, depth by depth.  Depths beyond the
declared ones take the last declared bound; without any, no depth is bounded.
-/

namespace Collate

/-- Declared bounds, outermost depth first. -/
structure Sizes where
  declared : List UInt64
  deriving DecidableEq, Inhabited, Repr

namespace Sizes

/-- No bound at any depth. -/
def unbounded : Sizes := ⟨[]⟩

def isUnbounded (s : Sizes) : Bool :=
  s.declared.isEmpty

/-- The bound at a depth; the greatest number stands for the absence of one. -/
def size (s : Sizes) (depth : Nat) : UInt64 :=
  match s.declared[depth]? with
  | some n => n
  | none => s.declared.getLastD (UInt64.ofNat (UInt64.size - 1))

/-- The first rows of a list, as many as the depth admits. -/
def cut {α : Type} (s : Sizes) (depth : Nat) (rows : List α) : List α :=
  rows.take (s.size depth).toNat

end Sizes

end Collate
