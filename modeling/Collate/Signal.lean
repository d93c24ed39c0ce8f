/-!
# Signals and gates

A `Signal` tells everyone who works on one search that it is to stop; once raised it stays
raised.  A `Gate` lets one merge through at a time.
-/

namespace Collate

/-- A signal to stop. -/
structure Signal where
  raised : Bool
  deriving DecidableEq, Inhabited, Repr

namespace Signal

/-- A signal that has not been raised. -/
def lowered : Signal := ⟨false⟩

/-- Raises the signal, and says whether this was what raised it. -/
def raise (s : Signal) : Signal × Bool :=
  (⟨true⟩, !s.raised)

end Signal

/-- A gate that one merge passes at a time. -/
structure Gate where
  held : Bool
  deriving DecidableEq, Inhabited, Repr

namespace Gate

/-- A gate that nobody holds. -/
def free : Gate := ⟨false⟩

/-- Takes the gate, if nobody holds it. -/
def acquire? (g : Gate) : Option Gate :=
  if g.held then none else some ⟨true⟩

/-- The gate after its holder has let go of it. -/
def release (_ : Gate) : Gate := free

end Gate

end Collate
