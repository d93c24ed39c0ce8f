import Collate.Search.Response
import Collate.Table.Producer

/-!
# Search stores

A `SearchStore` holds what one search has found: a table for each component of its request, the
errors and highlights that were reported, and whether the search is over.  All tables share one
termination signal.  A destroyed store has its signal raised, its tables cleared and its search
over, and stays so.
-/

namespace Collate

/-- What one search has found. -/
structure SearchStore where
  key : QueryKey
  /-- Raised when the search is to stop. -/
  signal : Signal
  /-- The table of each component. -/
  tables : List (String × Table)
  errors : List String
  highlights : List String
  complete : Bool
  deriving Inhabited

namespace SearchStore

/-- The tables for components, each with a name that none before it has. -/
def createTables (made : List (String × Table)) :
    List Component → Except Error (List (String × Table))
  | [] => .ok made
  | c :: rest => do
    let table ← Table.create c.fields c.showDetail c.maxResults c.storeSize
    if made.any (·.1 = c.id) then throw (.invalidConfig (.declaredTwice c.id))
    createTables (made ++ [(c.id, table)]) rest

/-- The store of a search that has found nothing yet. -/
def create (request : SearchRequest) : Except Error SearchStore := do
  let tables ← createTables [] request.components
  return ⟨request.key, .lowered, tables, [], [], false⟩

/-- The table of a component. -/
def table? (s : SearchStore) (component : String) : Option Table :=
  s.tables.lookup component

/-- The store with another table for a component. -/
def setTable (s : SearchStore) (component : String) (table : Table) : SearchStore :=
  { s with tables := s.tables.map fun (c, t) => (c, if c = component then table else t) }

/-- Adds a payload to the table of a component. -/
def addPayload (s : SearchStore) (component : String) (payload : Payload) :
    SearchStore × Option Error :=
  match s.table? component with
  | none => (s, some (.unknownComponent component))
  | some table =>
    let (table, fault) := table.add payload s.signal.raised
    (s.setTable component table, fault)

def addError (s : SearchStore) (error : String) : SearchStore :=
  { s with errors := s.errors ++ [error] }

def setHighlights (s : SearchStore) (highlights : List String) : SearchStore :=
  { s with highlights }

/-- Marks the search as over. -/
def finish (s : SearchStore) : SearchStore :=
  { s with complete := true }

/-- Raises the termination signal, and says whether it was not raised before. -/
def terminate (s : SearchStore) : SearchStore × Bool :=
  let (signal, first) := s.signal.raise
  ({ s with signal }, first)

/-- Stops the search and drops all it has found. -/
def destroy (s : SearchStore) : SearchStore :=
  { s with
    signal := s.signal.raise.1
    tables := s.tables.map fun (c, t) => (c, t.clear)
    complete := true }

/-- Whether there are tables and none of them has a use for further rows. -/
def canStop (s : SearchStore) : Bool :=
  !s.tables.isEmpty && s.tables.all (·.2.canStop)

/-- Whether every payload has been merged. -/
def isIdle (s : SearchStore) : Bool :=
  s.tables.all (!·.2.busy)

/-- The snapshot of a component, unless the search was stopped. -/
def snapshot? (s : SearchStore) (component : String) : Option Snapshot :=
  if s.signal.raised then none else (s.table? component).map Table.snapshot

/-- The message for a component of which nothing can be shown. -/
def missing (component : String) : String :=
  "No data found for component " ++ component

/-- The components of a request that can be shown, and a message for each of the others. -/
def collect (s : SearchStore) (components : List Component) : List TableResult × List String :=
  (components.filterMap fun c => (s.snapshot? c.id).map (TableResult.ofSnapshot c),
    components.filterMap fun c =>
      if (s.snapshot? c.id).isNone then some (missing c.id) else none)

/-- The response to a request. -/
def respond (s : SearchStore) (request : SearchRequest) : SearchResponse :=
  let (results, missed) := s.collect request.components
  ⟨results, s.highlights, s.errors ++ missed, s.complete⟩

/-- How the store is shown in a log. -/
def describe (s : SearchStore) : String :=
  "SearchResponseCreator \x7b complete: " ++ (if s.complete then "true" else "false")
    ++ ", .. \x7d"

end SearchStore

end Collate
