import Collate.Search.Pool
import Collate.Search.Shelf

/-!
# Caches of running searches

A `SearchCache` finds the running search of a query, and starts it when it is asked for the first
time.  The searches are kept by a `CacheLibrary`.  A search that leaves is destroyed: by whoever
removes it, or by the listener, if the library gave it up because it had not been used for the idle
time or because there was no room for it.
-/

namespace Collate

/-- Settings of a cache. -/
structure CacheConfig where
  /-- How many searches may run at once. -/
  maxEntries : Nat
  /-- How long a search may go unused. -/
  timeToIdle : Nat
  /-- How often idle searches are swept out. -/
  evictionInterval : Nat
  deriving DecidableEq, Inhabited, Repr

/-- A hundred searches, ten minutes of idling, a sweep every minute. -/
def CacheConfig.default : CacheConfig :=
  ⟨100, 600000, 60000⟩

namespace CacheConfig

def withMaxEntries (c : CacheConfig) (maxEntries : Nat) : CacheConfig :=
  { c with maxEntries }

def withTimeToIdle (c : CacheConfig) (timeToIdle : Nat) : CacheConfig :=
  { c with timeToIdle }

def withEvictionInterval (c : CacheConfig) (evictionInterval : Nat) : CacheConfig :=
  { c with evictionInterval }

end CacheConfig

/-- What a cache is asked by: the key of a query, and a request if the search may be started
from it.  Only the key of the query tells such keys apart. -/
structure CacheKey where
  query : QueryKey
  request : Option SearchRequest

namespace CacheKey

/-- A key that can start the search of its request. -/
def ofRequest (request : SearchRequest) : CacheKey :=
  ⟨request.key, some request⟩

/-- A key that only finds a running search. -/
def ofQuery (query : QueryKey) : CacheKey :=
  ⟨query, none⟩

instance : BEq CacheKey where
  beq a b := a.query == b.query

end CacheKey

/-- Makes the store of a key's search. -/
def CacheKey.build (key : CacheKey) (p : StorePool) : StorePool × Except Error Nat :=
  match key.request with
  | none => (p, .error (.missingRequest key.query.id))
  | some request => p.create request

namespace StorePool

/-- Listens to a cache: destroys a store that the cache gave up.  Whoever removes one destroys it
themselves. -/
def evicted (p : StorePool) (notice : Notice) : StorePool :=
  if notice.cause.wasEvicted then p.modify notice.store SearchStore.destroy else p

/-- Listens to notices that come one after the other. -/
def hear (p : StorePool) (notices : List Notice) : StorePool :=
  notices.foldl evicted p

end StorePool

/-- The running searches as a library keeps them, and the stores in which they gather. -/
structure SearchCache {κ : Type} (library : CacheLibrary κ) where
  config : CacheConfig
  cache : κ
  pool : StorePool
  /-- How often a search was found. -/
  hits : UInt64
  /-- How often a search was started. -/
  misses : UInt64

namespace SearchCache

variable {κ : Type} {library : CacheLibrary κ}

/-- A cache in which nothing runs, with room for one search at least. -/
def ofConfig (library : CacheLibrary κ) (config : CacheConfig) : SearchCache library :=
  ⟨config, library.build (max config.maxEntries 1) config.timeToIdle, .empty, 0, 0⟩

/-- Whether the search of a key runs. -/
def contains (c : SearchCache library) (now : Nat) (key : CacheKey) : Bool :=
  library.containsKey c.cache now key.query

/-- Makes the store of a key's search, and takes note that it was asked for. -/
def init (key : CacheKey) (state : Bool × StorePool) : (Bool × StorePool) × Except Error Nat :=
  let (pool, outcome) := key.build state.2
  ((true, pool), outcome)

/-- The store of a key's search, which is started if it does not run.  A failure is wrapped as one
of loading the cache. -/
def get (c : SearchCache library) (now : Nat) (key : CacheKey) :
    SearchCache library × Except Error Nat :=
  let (cache, (built, pool), outcome, notices) :=
    library.tryGetWith c.cache now key.query (init key) (false, c.pool)
  let c := { c with cache, pool := pool.hear notices }
  match outcome with
  | .error fault => (c, .error (.load fault))
  | .ok store =>
    if built then ({ c with misses := c.misses + 1 }, .ok store)
    else ({ c with hits := c.hits + 1 }, .ok store)

/-- The response to a request, whose search is started if it does not run. -/
def search (c : SearchCache library) (now : Nat) (request : SearchRequest) :
    SearchCache library × Except Error SearchResponse :=
  match c.get now (.ofRequest request) with
  | (c, .error fault) => (c, .error fault)
  | (c, .ok number) => (c, .ok ((c.pool.store number).respond request))

/-- Stops the search of a key and forgets it. -/
def remove (c : SearchCache library) (now : Nat) (key : CacheKey) : SearchCache library :=
  let (cache, removed, notices) := library.remove c.cache now key.query
  let pool := c.pool.hear notices
  match removed with
  | none => { c with cache, pool }
  | some store => { c with cache, pool := pool.modify store SearchStore.destroy }

/-- Stops and forgets the searches that have not been used for the idle time. -/
def evict (c : SearchCache library) (now : Nat) : SearchCache library :=
  let (cache, notices) := library.runPendingTasks c.cache now
  { c with cache, pool := c.pool.hear notices }

end SearchCache

end Collate
