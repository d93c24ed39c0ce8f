import Collate.Proofs.Serving

/-!
# One running search for each query

Of the stores that a cache ever made for a query only the newest can still gather, and it does as
long as the cache has an entry for the query.  A search that leaves the cache is destroyed, one that
cannot be started leaves the others as they were, and whoever asks for a running search is given the
same store whatever else the key holds.  All this holds for every library that keeps to
`CacheLibrary.Lawful`.

The invariant `SearchCache.Sound` does not depend on time.  Time and room matter only for what is
found, so the results speak of times at which the cache is `SearchCache.Fresh`, and of steps that
are `SearchCache.Step.Calm`.
-/

namespace Collate

namespace SearchStore

/-- What workers do to a store leaves its key and its signal alone. -/
theorem same_perform (s : SearchStore) (action : Action) :
  (s.perform action).key = s.key ∧ (s.perform action).signal = s.signal
  := by
  match action with
  | .add component payload =>
      constructor
      · rw [perform, addPayload]
        split <;> rfl
      · apply (tables_addPayload s component payload).2
  | .report _ | .highlight _ | .finish | .read => exact ⟨rfl, rfl⟩

end SearchStore

/-- A key that was made from a request, or from a query alone. -/
def CacheKey.Proper (key : CacheKey) : Prop :=
  ∀ request, key.request = some request → request.key = key.query

/-- What keeps the search of a key from being started, if something does. -/
def CacheKey.fault? (key : CacheKey) : Option Error :=
  match key.request with
  | none => some (.missingRequest key.query.id)
  | some request =>
    match SearchStore.create request with
    | .error fault => some fault
    | .ok _ => none

/-- Making the store of a key's search fails and makes none, or makes one after the others. -/
theorem CacheKey.build_cases (key : CacheKey) (p : StorePool) :
  (∃ fault p', key.fault? = some fault ∧ key.build p = (p', .error fault) ∧ p'.stores = p.stores
      ∧ p'.asked = p.asked + if key.request.isSome then 1 else 0)
    ∨ key.fault? = none ∧ ∃ request s p', key.request = some request
      ∧ SearchStore.create request = .ok s ∧ key.build p = (p', .ok p.stores.length)
      ∧ p'.stores = p.stores ++ [s] ∧ p'.asked = p.asked + 1
  := by
  cases hrequest : key.request with
  | none =>
      left
      refine ⟨.missingRequest key.query.id, p, ?_, ?_, rfl, rfl⟩
      · rw [fault?, hrequest]
      · rw [build, hrequest]
  | some request =>
      cases hcreate : SearchStore.create request with
      | error fault =>
          left
          refine ⟨fault, { p with asked := p.asked + 1 }, ?_, ?_, rfl, rfl⟩
          · simp only [fault?, hrequest, hcreate]
          · simp only [build, hrequest, StorePool.create_of_error hcreate]
      | ok s =>
          obtain ⟨p', hp', hstores, hasked⟩ := StorePool.create_of_ok hcreate p
          right
          refine ⟨?_, request, s, p', rfl, hcreate, ?_, hstores, hasked⟩
          · simp only [fault?, hrequest, hcreate]
          · simp only [build, hrequest, hp']

namespace SearchCache

/-- What may be asked of a cache. -/
inductive Call where
  /-- Gets the search of a request by a key that can start it. -/
  | get (request : SearchRequest)
  /-- Gets the search of a query by a key that cannot start it. -/
  | find (query : QueryKey)
  | search (request : SearchRequest)
  | remove (key : CacheKey)
  | evict
  | contains (key : CacheKey)
  /-- A worker acts on the store of a number. -/
  | work (number : Nat) (action : SearchStore.Action)

namespace Call

/-- The key by which a call gets a search, if it does. -/
def wanted? : Call → Option CacheKey
  | .get request | .search request => some (.ofRequest request)
  | .find query => some (.ofQuery query)
  | _ => none

theorem proper_of_wanted? {call : Call} {key : CacheKey} (h : call.wanted? = some key) :
  key.Proper
  := by
  match call with
  | .get request | .search request =>
      obtain rfl := Option.some_inj.mp h
      rintro request' ⟨⟩
      rfl
  | .find query =>
      obtain rfl := Option.some_inj.mp h
      intro request' hrequest'
      contradiction

/-- The query of which a call removes the search. -/
def removed? : Call → Option QueryKey
  | .remove key => some key.query
  | _ => none

end Call

section

variable {κ : Type} {library : CacheLibrary κ}

/-- The cache after a call. -/
def call (c : SearchCache library) (now : Nat) : Call → SearchCache library
  | .get request => (c.get now (.ofRequest request)).1
  | .find query => (c.get now (.ofQuery query)).1
  | .search request => (c.search now request).1
  | .remove key => c.remove now key
  | .evict => c.evict now
  | .contains _ => c
  | .work number action =>
    { c with pool := c.pool.modify number fun s => s.perform action }

/-- The cache after calls that are made one after the other, each at its time. -/
def callAll (c : SearchCache library) (calls : List (Nat × Call)) : SearchCache library :=
  calls.foldl (fun c timed => c.call timed.1 timed.2) c

/-- The store that a call is given, or the fault it meets, if it gets a search. -/
def got? (c : SearchCache library) (now : Nat) (call : Call) : Option (Except Error Nat) :=
  call.wanted?.map fun key => (c.get now key).2

end

/-- A call, with the cache and the time at which it is made. -/
structure Step {κ : Type} (library : CacheLibrary κ) where
  cache : SearchCache library
  now : Nat
  call : Call

section

variable {κ : Type} {library : CacheLibrary κ}

namespace Step

/-- Whether a call comes with a request and finds no search. -/
def asks (step : Step library) : Bool :=
  match step.call.wanted? with
  | some key => key.request.isSome && !step.cache.contains step.now key
  | none => false

/-- Whether a call is given a store. -/
def succeeds (step : Step library) : Bool :=
  match step.cache.got? step.now step.call with
  | some (.ok _) => true
  | _ => false

/-- Whether a call starts a search. -/
def starts (step : Step library) : Bool :=
  match step.call.wanted? with
  | some key => key.fault?.isNone && !step.cache.contains step.now key
  | none => false

end Step

/-- The steps of calls that are made one after the other. -/
def steps (c : SearchCache library) : List (Nat × Call) → List (Step library)
  | [] => []
  | (now, call) :: rest => ⟨c, now, call⟩ :: (c.call now call).steps rest

/-- No search has gone unused for the idle time. -/
def Fresh (c : SearchCache library) (shelf : κ → Shelf) (now : Nat) : Prop :=
  ∀ entry ∈ (shelf c.cache).entries, now < entry.lastUsed + c.config.timeToIdle

/-- There is an idle time, no search has gone unused for so long, and there is room for all searches
and for the one that the call starts. -/
structure Step.Calm (step : Step library) (shelf : κ → Shelf) : Prop where
  idling : 0 < step.cache.config.timeToIdle
  fresh : step.cache.Fresh shelf step.now
  room : (shelf step.cache.cache).entries.length + (if step.starts then 1 else 0)
    ≤ max step.cache.config.maxEntries 1

/-- The search of a query runs in the store of a number. -/
def Runs (c : SearchCache library) (shelf : κ → Shelf) (query : QueryKey) (number : Nat) : Prop :=
  ∃ entry ∈ (shelf c.cache).entries, entry.query = query ∧ entry.store = number

/-- The stores serve the entries, a store was made whenever a search was started, and the library
keeps the entries in the bounds that the settings give. -/
structure Sound (c : SearchCache library) (shelf : κ → Shelf) : Prop where
  serves : c.pool.Serves (shelf c.cache).entries
  misses : c.misses = UInt64.ofNat c.pool.stores.length
  capacity : (shelf c.cache).capacity = max c.config.maxEntries 1
  timeToIdle : (shelf c.cache).timeToIdle = c.config.timeToIdle

/-- The entries `before` and the stores of `p` are left, but for the entries that leave on the
occasion and what the listener makes of it. -/
structure Turned (c : SearchCache library) (shelf : κ → Shelf) (now : Nat)
    (before : List CacheEntry) (p : StorePool) (c' : SearchCache library) : Prop where
  config : c'.config = c.config
  sheds : ∃ notices, (shelf c.cache).Sheds now before (shelf c'.cache) notices
    ∧ c'.pool = p.hear notices

/-- A search could not be started, and nothing changed but how often the pool was asked. -/
structure Failed (c : SearchCache library) (shelf : κ → Shelf) (key : CacheKey) (fault : Error)
    (c' : SearchCache library) : Prop where
  reason : key.fault? = some fault
  entries : ∀ entry, entry ∈ (shelf c'.cache).entries ↔ entry ∈ (shelf c.cache).entries
  stores : c'.pool.stores = c.pool.stores
  asked : c'.pool.asked = c.pool.asked + if key.request.isSome then 1 else 0
  hits : c'.hits = c.hits
  misses : c'.misses = c.misses

/-- A search could not be started. -/
structure Refused (c : SearchCache library) (shelf : κ → Shelf) (now : Nat) (key : CacheKey)
    (fault : Error) (c' : SearchCache library) : Prop where
  absent : (shelf c.cache).live? now key.query = none
  reason : key.fault? = some fault
  turned : ∃ p, p.stores = c.pool.stores
    ∧ p.asked = c.pool.asked + (if key.request.isSome then 1 else 0)
    ∧ c.Turned shelf now (shelf c.cache).entries p c'
  hits : c'.hits = c.hits
  misses : c'.misses = c.misses

/-- A search was started in a new store, and took the place of one that there was of the query. -/
structure Started (c : SearchCache library) (shelf : κ → Shelf) (now : Nat) (key : CacheKey)
    (c' : SearchCache library) : Prop where
  absent : (shelf c.cache).live? now key.query = none
  faultless : key.fault? = none
  turned : ∃ request s p, key.request = some request ∧ SearchStore.create request = .ok s
    ∧ p.stores = c.pool.stores ++ [s] ∧ p.asked = c.pool.asked + 1
    ∧ c.Turned shelf now ((shelf c.cache).entries ++ [⟨key.query, c.pool.stores.length, now⟩]) p c'
  alone : ∀ entry ∈ (shelf c'.cache).entries, entry.query = key.query →
    entry = ⟨key.query, c.pool.stores.length, now⟩
  hits : c'.hits = c.hits
  misses : c'.misses = c.misses + 1

/-- A search was found and used. -/
structure Found (c : SearchCache library) (shelf : κ → Shelf) (now : Nat) (key : CacheKey)
    (entry : CacheEntry) (c' : SearchCache library) : Prop where
  live : (shelf c.cache).live? now key.query = some entry
  turned : c.Turned shelf now ((shelf c.cache).used now key.query) c.pool c'
  hits : c'.hits = c.hits + 1
  misses : c'.misses = c.misses

variable {shelf : κ → Shelf} {c c' : SearchCache library} {now : Nat} {key : CacheKey}

instance (c : SearchCache library) (shelf : κ → Shelf) (now : Nat) :
    Decidable (c.Fresh shelf now) :=
  inferInstanceAs (Decidable (∀ entry ∈ (shelf c.cache).entries, _))

instance (step : Step library) (shelf : κ → Shelf) : Decidable (step.Calm shelf) :=
  decidable_of_iff (0 < step.cache.config.timeToIdle ∧ step.cache.Fresh shelf step.now
      ∧ (shelf step.cache.cache).entries.length + (if step.starts then 1 else 0)
        ≤ max step.cache.config.maxEntries 1)
    ⟨fun ⟨idling, fresh, room⟩ => ⟨idling, fresh, room⟩,
      fun calm => ⟨calm.idling, calm.fresh, calm.room⟩⟩

/-! ### Time and room -/

namespace Fresh

theorem isIdle_eq_false (fresh : c.Fresh shelf now) (sound : c.Sound shelf) {entry : CacheEntry}
    (hentry : entry ∈ (shelf c.cache).entries) :
  (shelf c.cache).isIdle now entry = false
  := by
  rw [Shelf.isIdle, sound.timeToIdle, decide_eq_false_iff_not, Nat.not_le]
  apply fresh entry hentry

/-- Where no search is idle, those that are found are those that run. -/
theorem contains_iff (fresh : c.Fresh shelf now) (laws : library.Lawful shelf)
    (sound : c.Sound shelf) (key : CacheKey) :
  c.contains now key = true ↔ ∃ number, c.Runs shelf key.query number
  := by
  rw [contains, laws.containsKey]
  constructor
  case mp =>
    intro h
    obtain ⟨entry, hentry⟩ := Option.isSome_iff_exists.mp h
    obtain ⟨⟨hmem, hquery⟩, -⟩ := Shelf.live?_eq_some_iff.mp hentry
    exact ⟨entry.store, entry, hmem, hquery, rfl⟩
  case mpr =>
    rintro ⟨number, entry, hmem, hquery, -⟩
    have hlive : (shelf c.cache).live? now key.query = some entry :=
      Shelf.live?_eq_some_iff.mpr ⟨⟨hmem, hquery⟩, fresh.isIdle_eq_false sound hmem⟩
    rw [hlive]
    rfl

end Fresh

namespace Turned

variable {before : List CacheEntry} {p : StorePool}

/-- Where no entry is idle and there is room for all, none leaves, and the stores are left alone. -/
theorem same (turned : c.Turned shelf now before p c') (sound : c.Sound shelf)
    (fresh : ∀ entry ∈ before, now < entry.lastUsed + c.config.timeToIdle)
    (room : before.length ≤ max c.config.maxEntries 1) :
  (∀ entry, entry ∈ (shelf c'.cache).entries ↔ entry ∈ before) ∧ c'.pool = p
  := by
  obtain ⟨notices, sheds, hpool⟩ := turned.sheds
  have hmem : ∀ entry, entry ∈ (shelf c'.cache).entries ↔ entry ∈ before := by
    intro entry
    apply sheds.mem_iff
    · intro entry hentry
      rw [Shelf.isIdle, sound.timeToIdle, decide_eq_false_iff_not, Nat.not_le]
      apply fresh entry hentry
    · rw [sound.capacity]
      apply room
  use hmem
  rw [hpool]
  apply StorePool.hear_eq_self
  apply sheds.wasEvicted_eq_false fun entry => (hmem entry).mpr

/-- What the invariant asks for, but that the stores serve the entries that are left. -/
theorem sound (turned : c.Turned shelf now before p c') (sound : c.Sound shelf)
    (serves : c'.pool.Serves (shelf c'.cache).entries)
    (misses : c'.misses = UInt64.ofNat p.stores.length) :
  c'.Sound shelf
  := by
  obtain ⟨notices, sheds, hpool⟩ := turned.sheds
  refine ⟨serves, ?_, ?_, ?_⟩
  · rw [hpool, StorePool.length_hear, misses]
  · rw [sheds.capacity, sound.capacity, turned.config]
  · rw [sheds.timeToIdle, sound.timeToIdle, turned.config]

theorem asked (turned : c.Turned shelf now before p c') :
  c'.pool.asked = p.asked
  := by
  obtain ⟨notices, -, hpool⟩ := turned.sheds
  rw [hpool, (p.same_hear notices).2]

end Turned

/-! ### What a call does -/

/-- A search is found, or it is started, if that can be done. -/
theorem get_cases (laws : library.Lawful shelf) (sound : c.Sound shelf) (now : Nat)
    (key : CacheKey) :
  (∃ entry, (c.get now key).2 = .ok entry.store ∧ c.Found shelf now key entry (c.get now key).1)
    ∨ (∃ fault, (c.get now key).2 = .error (.load fault)
      ∧ c.Refused shelf now key fault (c.get now key).1)
    ∨ (c.get now key).2 = .ok c.pool.stores.length ∧ c.Started shelf now key (c.get now key).1
  := by
  cases hlive : (shelf c.cache).live? now key.query with
  | some entry =>
      obtain ⟨cache, notices, htry, sheds⟩ :=
        laws.found c.cache now key.query entry (init key) (false, c.pool) hlive
      left
      rw [get, htry]
      exact ⟨entry, rfl, hlive, ⟨rfl, notices, sheds, rfl⟩, rfl, rfl⟩
  | none =>
      right
      obtain ⟨fault, p, hfault, hbuild, hstores, hasked⟩
        | ⟨hfault, request, s, p, hrequest, hcreate, hbuild, hstores, hasked⟩ :=
        key.build_cases c.pool
      case inl =>
        have hinit : init key (false, c.pool) = ((true, p), .error fault) := by
          rw [init, hbuild]
        obtain ⟨cache, notices, htry, sheds⟩ :=
          laws.failed c.cache now key.query fault (init key) (false, c.pool) hlive
            (congrArg Prod.snd hinit)
        left
        rw [get, htry, hinit]
        exact ⟨fault, rfl, hlive, hfault, ⟨p, hstores, hasked, rfl, notices, sheds, rfl⟩, rfl, rfl⟩
      case inr =>
        have hinit : init key (false, c.pool) = ((true, p), .ok c.pool.stores.length) := by
          rw [init, hbuild]
        have hnew : ∀ entry ∈ (shelf c.cache).entries, entry.store ≠ c.pool.stores.length :=
          fun entry hentry => Nat.ne_of_lt (sound.serves.store_lt hentry)
        obtain ⟨cache, notices, htry, sheds, alone⟩ :=
          laws.computed c.cache now key.query c.pool.stores.length (init key) (false, c.pool) hlive
            (congrArg Prod.snd hinit) hnew
        right
        rw [get, htry, hinit]
        exact ⟨rfl, hlive, hfault,
          ⟨request, s, p, hrequest, hcreate, hstores, hasked, rfl, notices, sheds, rfl⟩, alone, rfl,
          rfl⟩

/-- The entry that is removed leaves, and its store is destroyed as if it had been given up. -/
theorem remove_eq (laws : library.Lawful shelf) (c : SearchCache library) (now : Nat)
    (key : CacheKey) :
  ∃ notices, (shelf c.cache).Sheds now ((shelf c.cache).without key.query)
      (shelf (c.remove now key).cache) (notices.filter (·.query ≠ key.query))
    ∧ (∀ notice ∈ notices, notice.query = key.query →
      ∃ entry, (shelf c.cache).entryOf? key.query = some entry
        ∧ entry.notice notice.cause = notice)
    ∧ (c.remove now key).pool = c.pool.hear
      (notices ++ ((shelf c.cache).entryOf? key.query).toList.map (·.notice .expired))
    ∧ (c.remove now key).config = c.config ∧ (c.remove now key).hits = c.hits
    ∧ (c.remove now key).misses = c.misses
  := by
  obtain ⟨cache, notices, hremove, sheds, about⟩ := laws.remove c.cache now key.query
  use notices
  cases hentry : (shelf c.cache).entryOf? key.query with
  | none =>
      rw [hentry] at hremove about
      rw [remove, hremove]
      refine ⟨sheds, about, ?_, rfl, rfl, rfl⟩
      rw [Option.toList_none, List.map_nil, List.append_nil]
      rfl
  | some entry =>
      rw [hentry] at hremove about
      rw [remove, hremove]
      exact ⟨sheds, about, c.pool.modify_hear notices entry, rfl, rfl, rfl⟩

/-- The entries that are due leave. -/
theorem evict_turned (laws : library.Lawful shelf) (c : SearchCache library) (now : Nat) :
  c.Turned shelf now (shelf c.cache).entries c.pool (c.evict now)
    ∧ (∀ entry ∈ (shelf (c.evict now).cache).entries,
      (shelf (c.evict now).cache).isIdle now entry = false)
    ∧ (shelf (c.evict now).cache).entries.length ≤ (shelf (c.evict now).cache).capacity
    ∧ (c.evict now).hits = c.hits ∧ (c.evict now).misses = c.misses
  := by
  obtain ⟨cache, notices, hswept, sheds, live, room⟩ := laws.swept c.cache now
  rw [evict, hswept]
  exact ⟨⟨rfl, notices, sheds, rfl⟩, live, room, rfl, rfl⟩

/-- A search is answered from the store that is given. -/
theorem search_eq (c : SearchCache library) (now : Nat) (request : SearchRequest) :
  c.search now request
    = ((c.get now (.ofRequest request)).1,
      (c.get now (.ofRequest request)).2.map fun number =>
        ((c.get now (.ofRequest request)).1.pool.store number).respond request)
  := by
  rw [search]
  split
  next hget =>
    rw [hget]
    rfl
  next hget =>
    rw [hget]
    rfl

/-- A call that gets a search leaves the cache as getting it does. -/
theorem call_of_wanted? {call : Call} (h : call.wanted? = some key) (c : SearchCache library)
    (now : Nat) :
  c.call now call = (c.get now key).1
  := by
  match call with
  | .get request | .find query =>
      obtain rfl := Option.some_inj.mp h
      rfl
  | .search request =>
      obtain rfl := Option.some_inj.mp h
      rw [SearchCache.call, search_eq]

/-- Nothing is counted at a call that gets no search. -/
theorem same_call (laws : library.Lawful shelf) {call : Call} (h : call.wanted? = none)
    (c : SearchCache library) (now : Nat) :
  (c.call now call).pool.asked = c.pool.asked ∧ (c.call now call).hits = c.hits
    ∧ (c.call now call).misses = c.misses
  := by
  match call with
  | .remove key =>
      obtain ⟨notices, -, -, hpool, -, hhits, hmisses⟩ := remove_eq laws c now key
      refine ⟨?_, hhits, hmisses⟩
      rw [SearchCache.call, hpool, (c.pool.same_hear _).2]
  | .evict =>
      obtain ⟨turned, -, -, hhits, hmisses⟩ := evict_turned laws c now
      exact ⟨turned.asked, hhits, hmisses⟩
  | .contains _ | .work .. => exact ⟨rfl, rfl, rfl⟩

theorem same_config (laws : library.Lawful shelf) (sound : c.Sound shelf) (now : Nat)
    (call : Call) :
  (c.call now call).config = c.config
  := by
  cases hwanted : call.wanted? with
  | some key =>
      rw [call_of_wanted? hwanted]
      obtain ⟨_, -, found⟩ | ⟨_, -, refused⟩ | ⟨-, started⟩ := get_cases laws sound now key
      case inl => apply found.turned.config
      case inr.inl =>
        obtain ⟨_, -, -, turned⟩ := refused.turned
        apply turned.config
      case inr.inr =>
        obtain ⟨_, _, _, -, -, -, -, turned⟩ := started.turned
        apply turned.config
  | none =>
      match call with
      | .remove key =>
          obtain ⟨_, -, -, -, hconfig, -, -⟩ := remove_eq laws c now key
          apply hconfig
      | .evict => apply (evict_turned laws c now).1.config
      | .contains _ | .work .. => rfl

/-! ### The invariant -/

namespace Sound

theorem ofConfig (laws : library.Lawful shelf) (config : CacheConfig) :
  (SearchCache.ofConfig library config).Sound shelf
  := by
  have hbuild := laws.build (max config.maxEntries 1) config.timeToIdle
  refine ⟨⟨?_, ?_, ?_⟩, rfl, ?_, ?_⟩
  all_goals simp [SearchCache.ofConfig, hbuild, StorePool.empty]

theorem get (sound : c.Sound shelf) (laws : library.Lawful shelf) (proper : key.Proper)
    (now : Nat) :
  (c.get now key).1.Sound shelf
  := by
  obtain ⟨entry, -, found⟩ | ⟨fault, -, refused⟩ | ⟨-, started⟩ := get_cases laws sound now key
  case inl =>
    obtain ⟨notices, sheds, hpool⟩ := found.turned.sheds
    apply found.turned.sound sound
    · rw [hpool]
      apply sound.serves.shed_used sheds
    · rw [found.misses, sound.misses]
  case inr.inl =>
    obtain ⟨p, hstores, -, turned⟩ := refused.turned
    obtain ⟨notices, sheds, hpool⟩ := turned.sheds
    apply turned.sound sound
    · rw [hpool]
      apply (sound.serves.congr_stores hstores).shed_entries sheds
    · rw [refused.misses, sound.misses, hstores]
  case inr.inr =>
    obtain ⟨request, s, p, hrequest, hcreate, hstores, -, turned⟩ := started.turned
    obtain ⟨tables, -, rfl⟩ := SearchStore.eq_of_create hcreate
    obtain ⟨notices, sheds, hpool⟩ := turned.sheds
    have alone := started.alone
    rw [← proper request hrequest] at sheds alone
    apply turned.sound sound
    · rw [hpool]
      apply sound.serves.shed_new rfl hstores sheds alone
    · rw [started.misses, sound.misses, hstores, List.length_append, List.length_singleton,
        UInt64.ofNat_add, UInt64.ofNat_one]

theorem call (sound : c.Sound shelf) (laws : library.Lawful shelf) (now : Nat) (call : Call) :
  (c.call now call).Sound shelf
  := by
  cases hwanted : call.wanted? with
  | some key =>
      rw [call_of_wanted? hwanted]
      apply sound.get laws (Call.proper_of_wanted? hwanted)
  | none =>
      match call with
      | .remove key =>
          obtain ⟨notices, sheds, about, hpool, hconfig, -, hmisses⟩ := remove_eq laws c now key
          rw [SearchCache.call]
          refine ⟨?_, ?_, ?_, ?_⟩
          · rw [hpool]
            apply sound.serves.shed_removed sheds about
          · rw [hmisses, hpool, StorePool.length_hear, sound.misses]
          · rw [sheds.capacity, sound.capacity, hconfig]
          · rw [sheds.timeToIdle, sound.timeToIdle, hconfig]
      | .evict =>
          obtain ⟨turned, -, -, -, hmisses⟩ := evict_turned laws c now
          obtain ⟨notices, sheds, hpool⟩ := turned.sheds
          apply turned.sound sound
          · rw [hpool]
            apply sound.serves.shed_entries sheds
          · exact hmisses.trans sound.misses
      | .contains _ => apply sound
      | .work number action =>
          refine ⟨?_, ?_, sound.capacity, sound.timeToIdle⟩
          · apply sound.serves.modify number fun s => s.same_perform action
            intro s destroyed
            apply destroyed.execute (.perform action)
          · rw [SearchCache.call, sound.misses, StorePool.modify, List.length_modify]

theorem callAll (sound : c.Sound shelf) (laws : library.Lawful shelf) (calls : List (Nat × Call)) :
  (c.callAll calls).Sound shelf
  := by
  induction calls generalizing c with
  | nil => apply sound
  | cons timed calls ih => apply ih (sound.call laws timed.1 timed.2)

end Sound

theorem config_callAll (laws : library.Lawful shelf) (sound : c.Sound shelf)
    (calls : List (Nat × Call)) :
  (c.callAll calls).config = c.config
  := by
  induction calls generalizing c with
  | nil => rfl
  | cons timed calls ih =>
      rw [← same_config laws sound timed.1 timed.2]
      apply ih (sound.call laws timed.1 timed.2)

/-! ### Running searches -/

section

variable {query : QueryKey} {number : Nat}

/-- A call that finds no search and can start it does. -/
theorem starts_eq_true (laws : library.Lawful shelf) {call : Call}
    (hwanted : call.wanted? = some key) (absent : (shelf c.cache).live? now key.query = none)
    (faultless : key.fault? = none) :
  Step.starts ⟨c, now, call⟩ = true
  := by
  simp [Step.starts, hwanted, contains, laws.containsKey, absent, faultless]

namespace Step.Calm

/-- Where there is room for all searches none leaves when one is used. -/
theorem found {call : Call} (calm : Step.Calm ⟨c, now, call⟩ shelf) (sound : c.Sound shelf)
    {entry : CacheEntry} (found : c.Found shelf now key entry c') :
  (∀ entry, entry ∈ (shelf c'.cache).entries ↔ entry ∈ (shelf c.cache).used now key.query)
  := by
  apply (found.turned.same sound _ _).1
  · rw [Shelf.used, List.forall_mem_map]
    intro entry hentry
    split
    · have idling : 0 < c.config.timeToIdle := calm.idling
      simp only
      omega
    · apply calm.fresh entry hentry
  · have room := calm.room
    rw [Shelf.used, List.length_map]
    simp only at room
    omega

/-- Where there is room for all searches nothing changes when one cannot be started. -/
theorem refused {call : Call} (calm : Step.Calm ⟨c, now, call⟩ shelf) (sound : c.Sound shelf)
    {fault : Error} (refused : c.Refused shelf now key fault c') :
  c.Failed shelf key fault c'
  := by
  obtain ⟨p, hstores, hasked, turned⟩ := refused.turned
  have room := calm.room
  simp only at room
  obtain ⟨hentries, hpool⟩ := turned.same sound calm.fresh (by omega)
  refine ⟨refused.reason, hentries, ?_, ?_, refused.hits, refused.misses⟩
  · rw [hpool, hstores]
  · rw [hpool, hasked]

/-- Where there is room for all searches and one that is started none leaves. -/
theorem started {call : Call} (calm : Step.Calm ⟨c, now, call⟩ shelf) (laws : library.Lawful shelf)
    (sound : c.Sound shelf) (hwanted : call.wanted? = some key)
    (started : c.Started shelf now key c') (entry : CacheEntry) :
  entry ∈ (shelf c'.cache).entries
    ↔ entry ∈ (shelf c.cache).entries ++ [⟨key.query, c.pool.stores.length, now⟩]
  := by
  obtain ⟨_, _, _, -, -, -, -, turned⟩ := started.turned
  have room := calm.room
  rw [starts_eq_true laws hwanted started.absent started.faultless, if_pos rfl] at room
  apply (turned.same sound _ _).1
  · rw [List.forall_mem_append, List.forall_mem_singleton]
    use calm.fresh
    have idling : 0 < c.config.timeToIdle := calm.idling
    simp only
    omega
  · rw [List.length_append, List.length_singleton]
    apply room

end Step.Calm

/-- The search that was got runs. -/
theorem runs_of_got? (laws : library.Lawful shelf) (sound : c.Sound shelf)
    {call : Call} (calm : Step.Calm ⟨c, now, call⟩ shelf) (hwanted : call.wanted? = some key)
    (h : c.got? now call = some (.ok number)) :
  (c.call now call).Runs shelf key.query number
  := by
  rw [got?, hwanted, Option.map_some, Option.some_inj] at h
  rw [call_of_wanted? hwanted]
  obtain ⟨entry, hget, found⟩ | ⟨fault, hget, -⟩ | ⟨hget, started⟩ := get_cases laws sound now key
  case inl =>
    obtain rfl := Except.ok.inj (hget.symm.trans h)
    obtain ⟨⟨hmem, hquery⟩, -⟩ := Shelf.live?_eq_some_iff.mp found.live
    obtain ⟨entry', hentry', hquery', hstore⟩ := Shelf.exists_mem_used hmem now key.query
    exact ⟨entry', (calm.found sound found entry').mpr hentry', hquery'.trans hquery, hstore⟩
  case inr.inl =>
    rw [hget] at h
    contradiction
  case inr.inr =>
    obtain rfl := Except.ok.inj (hget.symm.trans h)
    refine ⟨⟨key.query, c.pool.stores.length, now⟩, ?_, rfl, rfl⟩
    apply (calm.started laws sound hwanted started _).mpr List.mem_concat_self

/-- A search that runs is found, unless it is idle. -/
theorem get_of_runs (laws : library.Lawful shelf) (sound : c.Sound shelf)
    (fresh : c.Fresh shelf now) (runs : c.Runs shelf key.query number) :
  (c.get now key).2 = .ok number
  := by
  obtain ⟨entry, hentry, hquery, rfl⟩ := runs
  have hlive : (shelf c.cache).live? now key.query = some entry :=
    Shelf.live?_eq_some_iff.mpr ⟨⟨hentry, hquery⟩, fresh.isIdle_eq_false sound hentry⟩
  obtain ⟨entry', hget, found⟩ | ⟨_, -, refused⟩ | ⟨-, started⟩ := get_cases laws sound now key
  case inl => rw [hget, Option.some_inj.mp (found.live.symm.trans hlive)]
  case inr.inl =>
    rw [refused.absent] at hlive
    contradiction
  case inr.inr =>
    rw [started.absent] at hlive
    contradiction

/-- While no search is idle and there is room for all, one goes on until it is removed. -/
theorem Runs.call (runs : c.Runs shelf query number) (laws : library.Lawful shelf)
    (sound : c.Sound shelf) {call : Call} (calm : Step.Calm ⟨c, now, call⟩ shelf)
    (unremoved : call.removed? ≠ some query) :
  (c.call now call).Runs shelf query number
  := by
  obtain ⟨entry, hentry, rfl, rfl⟩ := runs
  have room : (shelf c.cache).entries.length ≤ max c.config.maxEntries 1 := by
    have room := calm.room
    simp only at room
    omega
  cases hwanted : call.wanted? with
  | some key =>
      rw [call_of_wanted? hwanted]
      obtain ⟨_, -, found⟩ | ⟨_, -, refused⟩ | ⟨-, started⟩ := get_cases laws sound now key
      case inl =>
        obtain ⟨entry', hentry', hquery, hstore⟩ := Shelf.exists_mem_used hentry now key.query
        exact ⟨entry', (calm.found sound found entry').mpr hentry', hquery, hstore⟩
      case inr.inl =>
        exact ⟨entry, ((calm.refused sound refused).entries entry).mpr hentry, rfl, rfl⟩
      case inr.inr =>
        refine ⟨entry, ?_, rfl, rfl⟩
        apply (calm.started laws sound hwanted started entry).mpr
        apply List.mem_append_left _ hentry
  | none =>
      match call with
      | .remove key =>
          rw [Call.removed?, ne_eq, Option.some_inj] at unremoved
          obtain ⟨notices, sheds, -⟩ := remove_eq laws c now key
          refine ⟨entry, ?_, rfl, rfl⟩
          rw [SearchCache.call, sheds.mem_iff, Shelf.mem_without]
          · exact ⟨hentry, Ne.symm unremoved⟩
          · intro entry hentry
            apply calm.fresh.isIdle_eq_false sound (Shelf.mem_without.mp hentry).1
          · rw [sound.capacity]
            apply Nat.le_trans (List.length_filter_le ..) room
      | .evict =>
          obtain ⟨hentries, -⟩ := (evict_turned laws c now).1.same sound calm.fresh room
          exact ⟨entry, (hentries entry).mpr hentry, rfl, rfl⟩
      | .contains _ | .work .. => exact ⟨entry, hentry, rfl, rfl⟩

theorem Runs.callAll (runs : c.Runs shelf query number) (laws : library.Lawful shelf)
    (sound : c.Sound shelf) {calls : List (Nat × Call)}
    (calm : ∀ step ∈ c.steps calls, step.Calm shelf)
    (unremoved : ∀ timed ∈ calls, timed.2.removed? ≠ some query) :
  (c.callAll calls).Runs shelf query number
  := by
  induction calls generalizing c with
  | nil => apply runs
  | cons timed calls ih =>
      obtain ⟨now, call⟩ := timed
      rw [steps, List.forall_mem_cons] at calm
      rw [List.forall_mem_cons] at unremoved
      apply ih (runs.call laws sound calm.1 unremoved.1) (sound.call laws now call) calm.2
        unremoved.2

end

/-! ### Counting -/

/-- What each call preserves when it counts as one if it passes a test, calls that are made one
after the other preserve when those that pass are counted. -/
theorem steps_induction {P : SearchCache library → Nat → Prop} (test : Step library → Bool)
    (laws : library.Lawful shelf)
    (hstep : ∀ c now call count, c.Sound shelf → P c count →
      P (c.call now call) (count + if test ⟨c, now, call⟩ then 1 else 0))
    (sound : c.Sound shelf) {count : Nat} (h : P c count) (calls : List (Nat × Call)) :
  P (c.callAll calls) (count + (c.steps calls).countP test)
  := by
  induction calls generalizing c count with
  | nil => apply h
  | cons timed calls ih =>
      obtain ⟨now, call⟩ := timed
      rw [steps, List.countP_cons, Nat.add_comm (List.countP ..), ← Nat.add_assoc]
      apply ih (sound.call laws now call) (hstep c now call count sound h)

theorem asked_call (laws : library.Lawful shelf) (sound : c.Sound shelf) (now : Nat)
    (call : Call) :
  (c.call now call).pool.asked = c.pool.asked + if Step.asks ⟨c, now, call⟩ then 1 else 0
  := by
  cases hwanted : call.wanted? with
  | none =>
      rw [(same_call laws hwanted c now).1]
      simp [Step.asks, hwanted]
  | some key =>
      rw [call_of_wanted? hwanted]
      obtain ⟨_, -, found⟩ | ⟨_, -, refused⟩ | ⟨-, started⟩ := get_cases laws sound now key
      case inl =>
        simp [Step.asks, hwanted, contains, laws.containsKey, found.live, found.turned.asked]
      case inr.inl =>
        obtain ⟨p, -, hasked, turned⟩ := refused.turned
        simp [Step.asks, hwanted, contains, laws.containsKey, refused.absent, turned.asked, hasked]
      case inr.inr =>
        obtain ⟨request, s, p, hrequest, -, -, hasked, turned⟩ := started.turned
        simp [Step.asks, hwanted, contains, laws.containsKey, started.absent, turned.asked, hasked,
          hrequest]

theorem counted_call (laws : library.Lawful shelf) (sound : c.Sound shelf) (now : Nat)
    (call : Call) :
  (c.call now call).hits + (c.call now call).misses
    = c.hits + c.misses + if Step.succeeds ⟨c, now, call⟩ then 1 else 0
  := by
  cases hwanted : call.wanted? with
  | none =>
      rw [(same_call laws hwanted c now).2.1, (same_call laws hwanted c now).2.2]
      simp [Step.succeeds, got?, hwanted]
  | some key =>
      rw [call_of_wanted? hwanted]
      obtain ⟨_, hget, found⟩ | ⟨_, hget, refused⟩ | ⟨hget, started⟩ :=
        get_cases laws sound now key
      case inl =>
        rw [found.hits, found.misses]
        simp only [Step.succeeds, got?, hwanted, Option.map_some, hget, if_true]
        rw [UInt64.add_assoc, UInt64.add_comm 1, ← UInt64.add_assoc]
      case inr.inl =>
        rw [refused.hits, refused.misses]
        simp [Step.succeeds, got?, hwanted, hget]
      case inr.inr =>
        rw [started.hits, started.misses]
        simp only [Step.succeeds, got?, hwanted, Option.map_some, hget, if_true]
        rw [UInt64.add_assoc]

/-! ### What is found -/

namespace Fresh

/-- Where no search is idle, a store goes on exactly if its query is found and it is the newest of
the query. -/
theorem raised_eq_false_iff (fresh : c.Fresh shelf now) (laws : library.Lawful shelf)
    (sound : c.Sound shelf) {number : Nat} {s : SearchStore}
    (hs : c.pool.stores[number]? = some s) :
  s.signal.raised = false
    ↔ c.contains now (.ofQuery s.key) = true ∧ c.pool.latest? s.key = some number
  := by
  rw [sound.serves.raised_eq_false_iff hs, fresh.contains_iff laws sound]
  constructor
  case mp =>
    rintro ⟨entry, hentry, rfl⟩
    rw [sound.serves.key_eq hentry hs]
    exact ⟨⟨entry.store, entry, hentry, rfl, rfl⟩, sound.serves.newest entry hentry⟩
  case mpr =>
    rintro ⟨⟨_, entry, hentry, hquery, -⟩, hlatest⟩
    use entry, hentry
    have hnewest := sound.serves.newest entry hentry
    rw [hquery] at hnewest
    exact Option.some_inj.mp (hnewest.symm.trans hlatest)

/-- Where no search is idle, the newest store of a query that is found goes on. -/
theorem exists_lowered (fresh : c.Fresh shelf now) (laws : library.Lawful shelf)
    (sound : c.Sound shelf) (found : c.contains now key = true) :
  ∃ (number : Nat) (s : SearchStore), c.pool.latest? key.query = some number
    ∧ c.pool.stores[number]? = some s ∧ s.signal.raised = false
  := by
  obtain ⟨_, entry, hentry, hquery, -⟩ := (fresh.contains_iff laws sound key).mp found
  obtain ⟨s, hs, -, lowered⟩ := sound.serves.exists_store hentry
  rw [← hquery]
  exact ⟨entry.store, s, sound.serves.newest entry hentry, hs, lowered⟩

/-- Where no search is idle, the stores of a query that is not found were destroyed. -/
theorem destroyed (fresh : c.Fresh shelf now) (laws : library.Lawful shelf)
    (sound : c.Sound shelf) (missed : c.contains now key = false) {number : Nat} {s : SearchStore}
    (hs : c.pool.stores[number]? = some s) (hkey : s.key = key.query) :
  s.Destroyed
  := by
  apply sound.serves.destroyed number s hs
  rintro entry hentry rfl
  have hquery : entry.query = key.query := (sound.serves.key_eq hentry hs).symm.trans hkey
  have hfound := (fresh.contains_iff laws sound key).mpr ⟨entry.store, entry, hentry, hquery, rfl⟩
  rw [missed] at hfound
  contradiction

end Fresh

namespace Sound

/-- A call whose search neither runs nor can be started fails. -/
theorem got?_of_fault? (sound : c.Sound shelf) (laws : library.Lawful shelf) {call : Call}
    (wanted : call.wanted? = some key) {fault : Error} (reason : key.fault? = some fault)
    (missed : c.contains now key = false) :
  c.got? now call = some (.error (.load fault)) ∧ c.Refused shelf now key fault (c.call now call)
  := by
  rw [got?, wanted, Option.map_some, call_of_wanted? wanted]
  obtain ⟨_, -, found⟩ | ⟨fault', hget, refused⟩ | ⟨-, started⟩ := get_cases laws sound now key
  case inl =>
    rw [contains, laws.containsKey, found.live] at missed
    contradiction
  case inr.inl =>
    obtain rfl := Option.some_inj.mp (refused.reason.symm.trans reason)
    exact ⟨congrArg some hget, refused⟩
  case inr.inr =>
    rw [started.faultless] at reason
    contradiction

/-- A call whose search can be started is given a store. -/
theorem exists_got? (sound : c.Sound shelf) (laws : library.Lawful shelf) {call : Call}
    (wanted : call.wanted? = some key) (faultless : key.fault? = none) (now : Nat) :
  ∃ number, c.got? now call = some (.ok number)
  := by
  rw [got?, wanted, Option.map_some]
  obtain ⟨entry, hget, -⟩ | ⟨_, -, refused⟩ | ⟨hget, -⟩ := get_cases laws sound now key
  · exact ⟨entry.store, congrArg some hget⟩
  · rw [refused.reason] at faultless
    contradiction
  · exact ⟨_, congrArg some hget⟩

end Sound

/-- Whatever the library does within its laws: after any calls a store goes on exactly if its query
is found and it is the newest of the query, there is such a store of each query that is found, and
every store of a query that is not found was destroyed, unless a search has gone unused for the idle
time.  A call that was given a store is followed by others that are given the same, whatever their
keys hold besides the query, as long as the search of the query is not removed, none goes unused for
the idle time and there is room for all.  A call whose search neither runs nor can be started fails,
adds no entry, and leaves entries and stores as they were if nothing is due to leave, and a call
whose search can be started is given a store.  The pool is asked whenever a call finds no search and
comes with a request, a store is made whenever a search is started, and whoever is given a store has
found it or started its search.  A sweep leaves no search that has gone unused for the idle time,
and no more than there is room for. -/
theorem one_live_search {κ : Type} {library : CacheLibrary κ} {shelf : κ → Shelf}
    (laws : library.Lawful shelf) (config : CacheConfig) (calls : List (Nat × Call)) :
  let c := (ofConfig library config).callAll calls
  (∀ now, c.Fresh shelf now →
    (∀ (number : Nat) (s : SearchStore), c.pool.stores[number]? = some s →
      (s.signal.raised = false
        ↔ c.contains now (.ofQuery s.key) = true ∧ c.pool.latest? s.key = some number))
      ∧ (∀ key, c.contains now key = true →
        ∃ (number : Nat) (s : SearchStore), c.pool.latest? key.query = some number
          ∧ c.pool.stores[number]? = some s ∧ s.signal.raised = false)
      ∧ ∀ key, c.contains now key = false →
        ∀ (number : Nat) (s : SearchStore), c.pool.stores[number]? = some s → s.key = key.query →
          s.signal.raised = true ∧ s.complete = true)
    ∧ (∀ now call key number, call.wanted? = some key → c.got? now call = some (.ok number) →
      Step.Calm ⟨c, now, call⟩ shelf → ∀ between,
        (∀ step ∈ (c.call now call).steps between, step.Calm shelf) →
        (∀ timed ∈ between, timed.2.removed? ≠ some key.query) →
        ∀ later, ((c.call now call).callAll between).Fresh shelf later →
          ∀ again key', again.wanted? = some key' → key'.query = key.query →
            ((c.call now call).callAll between).got? later again = some (.ok number))
    ∧ (∀ now call key, call.wanted? = some key →
      (∀ fault, key.fault? = some fault → c.contains now key = false →
        c.got? now call = some (.error (.load fault))
          ∧ (shelf (c.call now call).cache).entries ⊆ (shelf c.cache).entries
          ∧ (Step.Calm ⟨c, now, call⟩ shelf → c.Failed shelf key fault (c.call now call)))
        ∧ (key.fault? = none → ∃ number, c.got? now call = some (.ok number)))
    ∧ c.pool.asked = ((ofConfig library config).steps calls).countP Step.asks
    ∧ c.misses = UInt64.ofNat c.pool.stores.length
    ∧ c.hits + c.misses
      = UInt64.ofNat (((ofConfig library config).steps calls).countP Step.succeeds)
    ∧ ∀ now, (c.evict now).Fresh shelf now
      ∧ (shelf (c.evict now).cache).entries.length ≤ max config.maxEntries 1
  := by
  intro c
  have start := Sound.ofConfig laws config
  have sound : c.Sound shelf := start.callAll laws calls
  refine ⟨?stores, ?same, ?answers, ?asked, sound.misses, ?counted, ?swept⟩
  case stores =>
    intro now fresh
    refine ⟨fun number s hs => fresh.raised_eq_false_iff laws sound hs,
      fun key found => fresh.exists_lowered laws sound found, ?_⟩
    intro key missed number s hs hkey
    have destroyed := fresh.destroyed laws sound missed hs hkey
    exact ⟨destroyed.raised, destroyed.complete⟩
  case same =>
    intro now call key number hwanted hgot first between calm unremoved later hlater again key'
      hagain hquery
    have runs := runs_of_got? laws sound first hwanted hgot
    have sound' := sound.call laws now call
    have runs' := runs.callAll laws sound' calm unremoved
    rw [← hquery] at runs'
    rw [got?, hagain, Option.map_some,
      get_of_runs laws (sound'.callAll laws between) hlater runs']
  case answers =>
    intro now call key wanted
    refine ⟨?_, fun faultless => sound.exists_got? laws wanted faultless now⟩
    intro fault reason missed
    obtain ⟨hgot, refused⟩ := sound.got?_of_fault? laws wanted reason missed
    obtain ⟨_, -, -, turned⟩ := refused.turned
    obtain ⟨_, sheds, -⟩ := turned.sheds
    exact ⟨hgot, sheds.kept, fun calm => calm.refused sound refused⟩
  case asked =>
    have hcount : c.pool.asked = 0 + ((ofConfig library config).steps calls).countP Step.asks := by
      apply steps_induction (P := fun c count => c.pool.asked = count) Step.asks laws _ start rfl
      rintro c now call _ sound rfl
      apply asked_call laws sound
    rw [hcount, Nat.zero_add]
  case counted =>
    have hcount : c.hits + c.misses
        = UInt64.ofNat (0 + ((ofConfig library config).steps calls).countP Step.succeeds) := by
      apply steps_induction (P := fun c count => c.hits + c.misses = UInt64.ofNat count)
        Step.succeeds laws _ start rfl
      intro c now call count sound hcount
      rw [counted_call laws sound, hcount, UInt64.ofNat_add]
      split <;> rfl
    rw [hcount, Nat.zero_add]
  case swept =>
    intro now
    obtain ⟨turned, live, room, -⟩ := evict_turned laws c now
    have sound' : (c.evict now).Sound shelf := sound.call laws now .evict
    constructor
    · intro entry hentry
      have hidle := live entry hentry
      rw [Shelf.isIdle, sound'.timeToIdle, decide_eq_false_iff_not, Nat.not_le] at hidle
      apply hidle
    · rw [sound'.capacity, turned.config, config_callAll laws start] at room
      apply room

end

/-- With a library that keeps its entries in a list, a search is asked for before it can be started,
is started, used and removed, and is started again by a search; meanwhile a worker is late with a
payload for the store that was destroyed. -/
theorem one_live_search_startedTwice :
  let query := SearchStore.guests.key
  let calls : List (Nat × Call) :=
    [(0, .find query), (1, .get SearchStore.guests), (2, .find query),
      (3, .remove (.ofQuery query)), (4, .work 0 (.report "late"))]
  let between : List (Nat × Call) :=
    [(6, .evict), (7, .remove (.ofQuery ⟨"hosts"⟩)), (8, .work 1 .finish)]
  let c := (ofConfig Shelf.library .default).callAll calls
  let c' := c.call 5 (.search SearchStore.guests)
  Shelf.library.Lawful (fun s => s)
    ∧ c.contains 5 (.ofQuery query) = false
    ∧ (∀ (number : Nat) (s : SearchStore), c.pool.stores[number]? = some s → s.key = query →
      s.signal.raised = true ∧ s.complete = true)
    ∧ c.pool.asked = 1 ∧ c.misses = 1 ∧ c.hits + c.misses = 2
    ∧ c.got? 5 (.find query) = some (.error (.load (.missingRequest "guests")))
    ∧ c.Failed (fun s => s) (.ofQuery query) (.missingRequest "guests") (c.call 5 (.find query))
    ∧ c.got? 5 (.search SearchStore.guests) = some (.ok 1)
    ∧ (c'.callAll between).got? 9 (.find query) = some (.ok 1)
    ∧ (c'.evict 600000).cache.entries.length ≤ 100
  := by
  intro query calls between c c'
  have laws := Shelf.library_lawful
  have fresh : c.Fresh (fun s => s) 5 := by decide +kernel
  have hcontains : c.contains 5 (.ofQuery query) = false := by decide +kernel
  have hgot : c.got? 5 (.search SearchStore.guests) = some (.ok 1) := by rfl
  have hfind : Step.Calm ⟨c, 5, .find query⟩ fun s => s := by decide +kernel
  have hsearch : Step.Calm ⟨c, 5, .search SearchStore.guests⟩ fun s => s := by decide +kernel
  have hbetween : ∀ step ∈ c'.steps between, step.Calm fun s => s := by decide +kernel
  obtain ⟨stores, same, answers, hasked, hmisses, hcounted, -⟩ :=
    one_live_search laws .default calls
  obtain ⟨fails, -⟩ := answers 5 (.find query) (.ofQuery query) rfl
  obtain ⟨hfault, -, failed⟩ := fails (.missingRequest "guests") rfl hcontains
  obtain ⟨-, -, -, -, -, -, swept⟩ :=
    one_live_search laws .default (calls ++ [(5, .search SearchStore.guests)])
  refine ⟨laws, hcontains, (stores 5 fresh).2.2 _ hcontains, hasked, hmisses, hcounted, hfault,
    failed hfind, hgot, ?_, (swept 600000).2⟩
  apply same 5 _ (.ofRequest SearchStore.guests) 1 rfl hgot hsearch between hbetween _ 9 _ _
    (.ofQuery query) rfl rfl
  · decide
  · decide +kernel

end SearchCache

end Collate
