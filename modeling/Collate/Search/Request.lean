import Collate.Field
import Collate.Sizes

/-!
# Search requests

A `SearchRequest` names a query and asks for tables, one for each of its components.  A request
that is not incremental is answered when the search is complete, or when its time is up.
-/

namespace Collate

/-- What a query is known by. -/
structure QueryKey where
  id : String
  deriving DecidableEq, Inhabited, Repr

/-- A stretch of a list of rows. -/
structure Window where
  offset : UInt64
  length : UInt64
  deriving DecidableEq, Inhabited, Repr

/-- The rows within a stretch. -/
def Window.apply {α : Type} (w : Window) (rows : List α) : List α :=
  (rows.drop w.offset.toNat).take w.length.toNat

/-- One table of a search: its fields, and how much of it is held and shown. -/
structure Component where
  id : String
  fields : List Field
  showDetail : Bool
  /-- How many rows are shown under each parent, if that is bounded. -/
  maxResults : Option Sizes
  /-- How many rows are held under each parent. -/
  storeSize : Sizes
  /-- The stretch of the rows that is asked for, if not all of them are. -/
  range : Option Window
  deriving DecidableEq, Inhabited, Repr

namespace Component

/-- A table without details and without bounds. -/
def ofFields (id : String) (fields : List Field) : Component :=
  ⟨id, fields, false, none, .unbounded, none⟩

def withDetail (c : Component) (showDetail : Bool) : Component :=
  { c with showDetail }

def withMaxResults (c : Component) (sizes : Sizes) : Component :=
  { c with maxResults := some sizes }

def withStoreSize (c : Component) (storeSize : Sizes) : Component :=
  { c with storeSize }

def withRange (c : Component) (range : Window) : Component :=
  { c with range := some range }

end Component

/-- What is asked of a search. -/
structure SearchRequest where
  key : QueryKey
  components : List Component
  /-- Whether the answer is what is there by now. -/
  incremental : Bool
  /-- How many milliseconds a request that is not incremental waits. -/
  timeout : Option UInt64
  deriving DecidableEq, Inhabited, Repr

namespace SearchRequest

/-- An incremental request. -/
def ofComponents (key : QueryKey) (components : List Component) : SearchRequest :=
  ⟨key, components, true, none⟩

def withIncremental (r : SearchRequest) (incremental : Bool) : SearchRequest :=
  { r with incremental }

/-- Sets the time to wait, in milliseconds, at most the greatest number there is room for. -/
def withTimeout (r : SearchRequest) (milliseconds : Nat) : SearchRequest :=
  { r with timeout := some (UInt64.ofNat (min milliseconds (UInt64.size - 1))) }

/-- The first component of a name. -/
def component? (r : SearchRequest) (id : String) : Option Component :=
  r.components.find? (·.id = id)

end SearchRequest

end Collate
