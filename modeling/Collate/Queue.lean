import Collate.Signal

/-!
# Queues

An `OpenQueue` takes whatever is put into it.  A `BoundedQueue` holds producers back while it
is full: a producer waits until the queue is drained, or gives up when a signal linked to the
queue is raised.  Either queue is emptied in one go, oldest item first.
-/

namespace Collate

/-- A queue without a bound, the oldest item first. -/
structure OpenQueue (α : Type) where
  items : List α
  deriving Inhabited

namespace OpenQueue

variable {α : Type}

def empty : OpenQueue α := ⟨[]⟩

def push (q : OpenQueue α) (x : α) : OpenQueue α :=
  ⟨q.items ++ [x]⟩

/-- The emptied queue and what it held. -/
def drain (q : OpenQueue α) : OpenQueue α × List α :=
  (empty, q.items)

end OpenQueue

/-- What becomes of an item offered to a bounded queue. -/
inductive Admission where
  | accepted
  /-- The queue is full and its signal is raised. -/
  | refused
  /-- The queue is full, and the producer has to wait. -/
  | blocked
  deriving DecidableEq, Repr

/-- A queue with a bound, the oldest item first. -/
structure BoundedQueue (α : Type) where
  capacity : Nat
  items : List α
  /-- Whether producers watch the signal. -/
  linked : Bool
  signal : Signal
  deriving Inhabited

/-- What happens to a queue at which a producer waits. -/
inductive Relief where
  | drain
  | raise
  deriving DecidableEq, Repr

namespace BoundedQueue

variable {α : Type}

/-- How many items a queue holds if nothing else is said. -/
def defaultCapacity : Nat := 1000000

/-- An empty queue; there is room for one item at least. -/
def ofCapacity (capacity : Nat) (linked : Bool) : BoundedQueue α :=
  ⟨max capacity 1, [], linked, .lowered⟩

def isFull (q : BoundedQueue α) : Bool :=
  q.capacity ≤ q.items.length

/-- Whether a producer that has to wait would give up. -/
def isTerminated (q : BoundedQueue α) : Bool :=
  q.linked && q.signal.raised

/-- Offers an item to the queue. -/
def offer (q : BoundedQueue α) (x : α) : BoundedQueue α × Admission :=
  if q.isFull then (q, if q.isTerminated then .refused else .blocked)
  else ({ q with items := q.items ++ [x] }, .accepted)

/-- The emptied queue and what it held. -/
def drain (q : BoundedQueue α) : BoundedQueue α × List α :=
  ({ q with items := [] }, q.items)

/-- Raises the signal, and says whether this was what raised it. -/
def raise (q : BoundedQueue α) : BoundedQueue α × Bool :=
  let (signal, first) := q.signal.raise
  ({ q with signal }, first)

/-- An item is offered, and if its producer has to wait it is offered again after the relief.
Gives the queue, what became of the item, and what the relief drained or whether it raised the
signal. -/
def contend (q : BoundedQueue α) (x : α) (relief : Relief) :
    BoundedQueue α × Admission × (List α ⊕ Bool) :=
  let (q, admission) := q.offer x
  let (q, effect) : BoundedQueue α × (List α ⊕ Bool) :=
    match relief with
    | .drain => let (q, drained) := q.drain; (q, .inl drained)
    | .raise => let (q, first) := q.raise; (q, .inr first)
  match admission with
  | .blocked => let (q, admission) := q.offer x; (q, admission, effect)
  | settled => (q, settled, effect)

end BoundedQueue

end Collate
