import Collate.Search.Request

/-!
# Caches that a library provides

A `CacheLibrary` keeps the numbers of stores under the keys of queries, for as long as they are used
and there is room for them, and gives notice of the entries that leave.  How it does so is its own
business: `CacheLibrary.Lawful` says what may be relied on, in terms of the `Shelf` of entries that
the cache holds.  The library `Shelf.library` does no more than that.  Times are milliseconds on one
clock.
-/

namespace Collate

/-- Why an entry left a cache. -/
inductive RemovalCause where
  /-- It went unused for the idle time. -/
  | expired
  /-- It was removed by request. -/
  | explicit
  /-- Another value took its place. -/
  | replaced
  /-- There was no room for it. -/
  | size
  deriving DecidableEq, Repr

/-- Whether the cache gave the entry up of itself. -/
def RemovalCause.wasEvicted : RemovalCause → Bool
  | .expired | .size => true
  | .explicit | .replaced => false

/-- What a listener is told of an entry that has left. -/
structure Notice where
  query : QueryKey
  store : Nat
  cause : RemovalCause
  deriving DecidableEq, Repr

/-- The operations of a cache, which a library keeps as a `κ`.  What an operation leads to includes
the notices of the entries that leave on the occasion. -/
structure CacheLibrary (κ : Type) where
  /-- An empty cache, with its greatest number of entries and its idle time. -/
  build (capacity timeToIdle : Nat) : κ
  /-- Whether there is a value for a key. -/
  containsKey (c : κ) (now : Nat) (query : QueryKey) : Bool
  /-- The value for a key, or the one that is computed for it unless that fails. -/
  tryGetWith {σ ε : Type} (c : κ) (now : Nat) (query : QueryKey) (init : σ → σ × Except ε Nat)
    (s : σ) : κ × σ × Except ε Nat × List Notice
  /-- Takes the value for a key out of the cache. -/
  remove (c : κ) (now : Nat) (query : QueryKey) : κ × Option Nat × List Notice
  /-- Does what is due. -/
  runPendingTasks (c : κ) (now : Nat) : κ × List Notice

/-- An entry of a cache: its key, its value, and when it was last used. -/
structure CacheEntry where
  query : QueryKey
  store : Nat
  lastUsed : Nat
  deriving DecidableEq, Inhabited, Repr

/-- The notice of an entry that left. -/
def CacheEntry.notice (entry : CacheEntry) (cause : RemovalCause) : Notice :=
  ⟨entry.query, entry.store, cause⟩

/-- The entries that a cache holds, one for each key, and the bounds it keeps them in. -/
structure Shelf where
  capacity : Nat
  timeToIdle : Nat
  entries : List CacheEntry
  distinct : (entries.map (·.query)).Nodup

namespace Shelf

/-- The shelf with other entries. -/
def hold (s : Shelf) (entries : List CacheEntry) (distinct : (entries.map (·.query)).Nodup) :
    Shelf :=
  { s with entries, distinct }

/-- Whether an entry has gone unused for the idle time. -/
def isIdle (s : Shelf) (now : Nat) (entry : CacheEntry) : Bool :=
  entry.lastUsed + s.timeToIdle ≤ now

/-- The entry of a key, idle or not. -/
def entryOf? (s : Shelf) (query : QueryKey) : Option CacheEntry :=
  s.entries.find? (·.query = query)

/-- The entry of a key, unless it is idle. -/
def live? (s : Shelf) (now : Nat) (query : QueryKey) : Option CacheEntry :=
  (s.entryOf? query).filter (!s.isIdle now ·)

/-- The entries when that of a key has been used. -/
def used (s : Shelf) (now : Nat) (query : QueryKey) : List CacheEntry :=
  s.entries.map fun entry => if entry.query = query then { entry with lastUsed := now } else entry

/-- The entries of other keys. -/
def without (s : Shelf) (query : QueryKey) : List CacheEntry :=
  s.entries.filter (·.query ≠ query)

/-- The entries when a key has been given a value. -/
def put (s : Shelf) (now : Nat) (query : QueryKey) (store : Nat) : List CacheEntry :=
  s.without query ++ [⟨query, store, now⟩]

/-- The entries that are not idle, as many as there is room for. -/
def roomy (s : Shelf) (now : Nat) : List CacheEntry :=
  (s.entries.filter (!s.isIdle now ·)).take s.capacity

/-- Of the entries `before` the shelf `s'` holds those that are left when some have gone: each of
them was idle, or one of more than there is room for, and the listener is told of each, and of no
other, that the cache gave it up. -/
structure Sheds (s : Shelf) (now : Nat) (before : List CacheEntry) (s' : Shelf)
    (notices : List Notice) : Prop where
  capacity : s'.capacity = s.capacity
  timeToIdle : s'.timeToIdle = s.timeToIdle
  kept : s'.entries ⊆ before
  due : ∀ entry ∈ before, entry ∉ s'.entries →
    s.isIdle now entry = true ∨ s.capacity < before.length
  told : ∀ entry ∈ before, entry ∉ s'.entries →
    ∃ cause, cause.wasEvicted = true ∧ entry.notice cause ∈ notices
  meant : ∀ notice ∈ notices, notice.cause.wasEvicted = true →
    ∃ entry ∈ before, entry ∉ s'.entries ∧ entry.notice notice.cause = notice

end Shelf

/-- What may be relied on of a library: which entries there are after an operation, what it gives,
and that the listener is told of the entries that leave. -/
structure CacheLibrary.Lawful {κ : Type} (library : CacheLibrary κ) (shelf : κ → Shelf) : Prop where
  build : ∀ capacity timeToIdle,
    shelf (library.build capacity timeToIdle) = ⟨capacity, timeToIdle, [], List.nodup_nil⟩
  containsKey : ∀ c now query,
    library.containsKey c now query = ((shelf c).live? now query).isSome
  /-- Nothing is computed for a key that is there. -/
  found : ∀ {σ ε : Type} (c now query entry) (init : σ → σ × Except ε Nat) (s : σ),
    (shelf c).live? now query = some entry →
    ∃ c' notices, library.tryGetWith c now query init s = (c', s, .ok entry.store, notices)
      ∧ (shelf c).Sheds now ((shelf c).used now query) (shelf c') notices
  /-- A new value that is computed for a key that is not there takes the place of an idle one. -/
  computed : ∀ {σ ε : Type} (c now query store) (init : σ → σ × Except ε Nat) (s : σ),
    (shelf c).live? now query = none → (init s).2 = .ok store →
    (∀ entry ∈ (shelf c).entries, entry.store ≠ store) →
    ∃ c' notices, library.tryGetWith c now query init s = (c', (init s).1, .ok store, notices)
      ∧ (shelf c).Sheds now ((shelf c).entries ++ [⟨query, store, now⟩]) (shelf c') notices
      ∧ ∀ entry ∈ (shelf c').entries, entry.query = query → entry = ⟨query, store, now⟩
  /-- A failure is not kept. -/
  failed : ∀ {σ ε : Type} (c now query fault) (init : σ → σ × Except ε Nat) (s : σ),
    (shelf c).live? now query = none → (init s).2 = .error fault →
    ∃ c' notices, library.tryGetWith c now query init s = (c', (init s).1, .error fault, notices)
      ∧ (shelf c).Sheds now (shelf c).entries (shelf c') notices
  /-- What is removed is handed back, whatever the listener is told of it. -/
  remove : ∀ c now query,
    ∃ c' notices,
      library.remove c now query = (c', ((shelf c).entryOf? query).map (·.store), notices)
      ∧ (shelf c).Sheds now ((shelf c).without query) (shelf c')
        (notices.filter (·.query ≠ query))
      ∧ ∀ notice ∈ notices, notice.query = query →
        ∃ entry, (shelf c).entryOf? query = some entry ∧ entry.notice notice.cause = notice
  /-- After the tasks that were due no entry is idle, and there is room for all. -/
  swept : ∀ c now,
    ∃ c' notices, library.runPendingTasks c now = (c', notices)
      ∧ (shelf c).Sheds now (shelf c).entries (shelf c') notices
      ∧ (∀ entry ∈ (shelf c').entries, (shelf c').isIdle now entry = false)
      ∧ (shelf c').entries.length ≤ (shelf c').capacity

namespace Shelf

/-- Other times of last use leave one entry for each key. -/
theorem distinct_used (s : Shelf) (now : Nat) (query : QueryKey) :
  ((s.used now query).map (·.query)).Nodup
  := by
  have hqueries : (s.used now query).map (·.query) = s.entries.map (·.query) := by
    rw [used, List.map_map]
    apply List.map_congr_left
    intro entry _
    rw [Function.comp_apply]
    split <;> rfl
  rw [hqueries]
  apply s.distinct

theorem distinct_without (s : Shelf) (query : QueryKey) :
  ((s.without query).map (·.query)).Nodup
  := s.distinct.sublist (List.filter_sublist.map _)

theorem distinct_put (s : Shelf) (now : Nat) (query : QueryKey) (store : Nat) :
  ((s.put now query store).map (·.query)).Nodup
  := by
  rw [put, List.map_append, List.map_singleton, List.nodup_append]
  refine ⟨s.distinct_without query, List.pairwise_singleton .., ?_⟩
  simp only [List.mem_map, List.mem_singleton, without, List.mem_filter, decide_eq_true_eq]
  rintro _ ⟨entry, ⟨-, hquery⟩, rfl⟩ _ rfl
  apply hquery

theorem distinct_roomy (s : Shelf) (now : Nat) :
  ((s.roomy now).map (·.query)).Nodup
  := s.distinct.sublist (((List.take_sublist ..).trans List.filter_sublist).map _)

/-- The library that keeps its entries in a list.  Idle entries leave when the cache is swept or
their keys are computed anew, and where there is no room the last entries leave when the cache is
swept. -/
def library : CacheLibrary Shelf where
  build capacity timeToIdle := ⟨capacity, timeToIdle, [], List.nodup_nil⟩
  containsKey s now query := (s.live? now query).isSome
  tryGetWith s now query init state :=
    match s.live? now query with
    | some entry =>
      (s.hold (s.used now query) (s.distinct_used now query), state, .ok entry.store, [])
    | none =>
      match init state with
      | (state, .error fault) => (s, state, .error fault, [])
      | (state, .ok store) =>
        (s.hold (s.put now query store) (s.distinct_put now query store), state, .ok store,
          (s.entryOf? query).toList.map (·.notice .expired))
  remove s _ query :=
    (s.hold (s.without query) (s.distinct_without query),
      (s.entryOf? query).map (·.store), (s.entryOf? query).toList.map (·.notice .explicit))
  runPendingTasks s now :=
    (s.hold (s.roomy now) (s.distinct_roomy now),
      (s.entries.filter (s.isIdle now)).map (·.notice .expired)
        ++ ((s.entries.filter (!s.isIdle now ·)).drop s.capacity).map (·.notice .size))

end Shelf

end Collate
