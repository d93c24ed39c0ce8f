import Collate.Search.Store

/-!
# Pools of search stores

A `StorePool` starts searches and lets the workers of a search find its store by the key of the
query.  Stores are numbered in the order in which they were made.  The pool does not keep a
store alive: it finds the newest store of a key only as long as someone else holds it.
-/

namespace Collate

/-- The stores that were made, and which of them are held. -/
structure StorePool where
  /-- Every store made, by its number. -/
  stores : List SearchStore
  /-- The numbers of the stores that someone holds. -/
  held : List Nat
  /-- The store last made for each key, as far as that is remembered. -/
  newest : List (QueryKey × Nat)
  /-- How often a store was asked for. -/
  asked : Nat

namespace StorePool

def empty : StorePool := ⟨[], [], [], 0⟩

def isHeld (p : StorePool) (number : Nat) : Bool :=
  p.held.contains number

/-- Makes the store of a request, held by who asked for it.  Entries of stores that nobody
holds are forgotten on this occasion. -/
def create (p : StorePool) (request : SearchRequest) : StorePool × Except Error Nat :=
  let p := { p with asked := p.asked + 1 }
  match SearchStore.create request with
  | .error fault => (p, .error fault)
  | .ok store =>
    let number := p.stores.length
    let live := p.newest.filter fun entry => p.isHeld entry.2 && entry.1 ≠ request.key
    ({ p with
        stores := p.stores ++ [store]
        held := p.held ++ [number]
        newest := live ++ [(request.key, number)] }, .ok number)

/-- Lets go of a store, and says whether it was held. -/
def release (p : StorePool) (number : Nat) : StorePool × Bool :=
  ({ p with held := p.held.filter (· ≠ number) }, p.isHeld number)

/-- The newest store of a key, if someone holds it. -/
def find? (p : StorePool) (key : QueryKey) : Option Nat :=
  match p.newest.lookup key with
  | some number => if p.isHeld number then some number else none
  | none => none

/-- The store of a number.  A number that was not given out stands for a store that has
nothing in it. -/
def store (p : StorePool) (number : Nat) : SearchStore :=
  p.stores.getD number default

/-- The newest store made for a key, held or not. -/
def latest? (p : StorePool) (key : QueryKey) : Option Nat :=
  (p.stores.zipIdx.filter (·.1.key = key)).getLast?.map (·.2)

/-- The pool with a store changed. -/
def modify (p : StorePool) (number : Nat) (f : SearchStore → SearchStore) : StorePool :=
  { p with stores := p.stores.modify number f }

end StorePool

end Collate
