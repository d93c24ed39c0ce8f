import Collate.Search.Cache
import Collate.Proofs.Destruction
import Collate.Proofs.Shelf

/-!
# Stores that a cache serves

`StorePool.Serves` relates the entries of a cache to the stores: an entry has the newest store of
its query, which goes on, and every other store was destroyed.  It holds at any time, since an idle
search goes on until the library gives it up.  When entries leave a shelf, the listener destroys
their stores and leaves the others alone, so that the stores go on serving the entries that are
left, whether an entry was found, made or removed on the occasion.
-/

namespace Collate

namespace StorePool

section

variable {p p' : StorePool} {key : QueryKey} {number : Nat}

/-- Which store of a key is the newest is seen from the keys of the stores. -/
theorem latest?_eq (p : StorePool) (key : QueryKey) :
  p.latest? key = ((p.stores.map (·.key)).zipIdx.filter (·.1 = key)).getLast?.map (·.2)
  := by
  rw [latest?, List.zipIdx_map, List.filter_map, List.getLast?_map, Option.map_map]
  rfl

theorem latest?_congr (h : p'.stores.map (·.key) = p.stores.map (·.key)) (key : QueryKey) :
  p'.latest? key = p.latest? key
  := by
  rw [latest?_eq, latest?_eq, h]

theorem latest?_concat {s : SearchStore} (h : p'.stores = p.stores ++ [s]) (key : QueryKey) :
  p'.latest? key = if s.key = key then some p.stores.length else p.latest? key
  := by
  rw [latest?, latest?, h, List.zipIdx_append, List.filter_append, List.getLast?_append]
  by_cases hkey : s.key = key
  · simp [hkey]
  · simp [hkey]

/-- The newest store of a key is one that was made for it. -/
theorem exists_of_latest? (h : p.latest? key = some number) :
  ∃ s, p.stores[number]? = some s ∧ s.key = key
  := by
  obtain ⟨⟨s, index⟩, hlast, rfl⟩ := Option.map_eq_some_iff.mp h
  obtain ⟨hmem, hkey⟩ := List.mem_filter.mp (List.mem_of_getLast? hlast)
  use s
  exact ⟨List.mem_zipIdx_iff_getElem?.mp hmem, of_decide_eq_true hkey⟩

theorem map_key_modify (p : StorePool) (number : Nat) {f : SearchStore → SearchStore}
    (hf : ∀ s, (f s).key = s.key) :
  (p.modify number f).stores.map (·.key) = p.stores.map (·.key)
  := by
  apply List.ext_getElem?
  intro index
  rw [List.getElem?_map, List.getElem?_map, modify, List.getElem?_modify]
  cases p.stores[index]? with
  | none => rfl
  | some s =>
      simp only [Option.map_eq_map, Option.map_some]
      split
      · rw [hf]
      · rfl

theorem exists_of_modify {f : SearchStore → SearchStore} {index : Nat} {s : SearchStore}
    (h : (p.modify number f).stores[index]? = some s) :
  ∃ s', p.stores[index]? = some s' ∧ s = if number = index then f s' else s'
  := by
  rw [modify, List.getElem?_modify] at h
  obtain ⟨s', hs', rfl⟩ := Option.map_eq_some_iff.mp h
  exact ⟨s', hs', rfl⟩

/-- A store that is made comes after the others. -/
theorem create_of_ok {request : SearchRequest} {s : SearchStore}
    (h : SearchStore.create request = .ok s) (p : StorePool) :
  ∃ p', p.create request = (p', .ok p.stores.length) ∧ p'.stores = p.stores ++ [s]
    ∧ p'.asked = p.asked + 1
  := by
  simp [create, h]

/-- A request that is rejected is counted, and no store is made for it. -/
theorem create_of_error {request : SearchRequest} {fault : Error}
    (h : SearchStore.create request = .error fault) (p : StorePool) :
  p.create request = ({ p with asked := p.asked + 1 }, .error fault)
  := by
  simp [create, h]

end

/-! ### What the listener does -/

section

variable {p p' : StorePool} {number : Nat} {s : SearchStore} {notices : List Notice}

/-- What the listener makes of the stores preserves what destroying a store preserves. -/
theorem hear_induction {P : StorePool → Prop}
    (destroy : ∀ p number, P p → P (p.modify number SearchStore.destroy)) (h : P p)
    (notices : List Notice) :
  P (p.hear notices)
  := by
  induction notices generalizing p with
  | nil => apply h
  | cons notice notices ih =>
      apply ih
      rw [evicted]
      split
      · apply destroy _ _ h
      · apply h

/-- The listener makes no stores, and leaves their keys alone. -/
theorem same_hear (p : StorePool) (notices : List Notice) :
  (p.hear notices).stores.map (·.key) = p.stores.map (·.key) ∧ (p.hear notices).asked = p.asked
  := by
  apply hear_induction (P := fun p' => p'.stores.map (·.key) = p.stores.map (·.key)
    ∧ p'.asked = p.asked) _ ⟨rfl, rfl⟩
  rintro p' number ⟨hkeys, hasked⟩
  rw [map_key_modify]
  · exact ⟨hkeys, hasked⟩
  · intro s
    rfl

theorem length_hear (p : StorePool) (notices : List Notice) :
  (p.hear notices).stores.length = p.stores.length
  := by
  simpa using congrArg List.length (p.same_hear notices).1

/-- Where the cache gave nothing up, the listener does nothing. -/
theorem hear_eq_self (h : ∀ notice ∈ notices, notice.cause.wasEvicted = false) :
  p.hear notices = p
  := by
  induction notices with
  | nil => rfl
  | cons notice notices ih =>
      rw [List.forall_mem_cons] at h
      have hevicted : p.evicted notice = p := by
        rw [evicted, h.1]
        rfl
      rw [hear, List.foldl_cons, hevicted]
      apply ih h.2

/-- A store that the cache did not give up is left alone. -/
theorem getElem?_hear
    (h : ∀ notice ∈ notices, notice.cause.wasEvicted = true → notice.store ≠ number) :
  (p.hear notices).stores[number]? = p.stores[number]?
  := by
  induction notices generalizing p with
  | nil => rfl
  | cons notice notices ih =>
      rw [List.forall_mem_cons] at h
      rw [hear, List.foldl_cons]
      apply (ih h.2).trans
      rw [evicted]
      split
      next hevicted =>
        rw [modify]
        apply List.getElem?_modify_ne _ _ (h.1 hevicted)
      next => rfl

/-- A store that the cache gave up is destroyed, and stays so. -/
theorem destroyed_hear (hs : (p.hear notices).stores[number]? = some s)
    (h : (∀ s', p.stores[number]? = some s' → s'.Destroyed)
      ∨ ∃ notice ∈ notices, notice.cause.wasEvicted = true ∧ notice.store = number) :
  s.Destroyed
  := by
  induction notices generalizing p with
  | nil =>
      apply h.resolve_right _ s hs
      simp
  | cons notice notices ih =>
      apply ih hs
      have hevicted {s' : SearchStore} (hs' : (p.evicted notice).stores[number]? = some s') :
          (notice.cause.wasEvicted = true ∧ notice.store = number → s'.Destroyed)
            ∧ ((∀ s'', p.stores[number]? = some s'' → s''.Destroyed) → s'.Destroyed) := by
        rw [evicted] at hs'
        split at hs'
        next =>
          obtain ⟨s'', hs'', rfl⟩ := exists_of_modify hs'
          split
          next => exact ⟨fun _ => s''.destroyed_destroy, fun _ => s''.destroyed_destroy⟩
          next hne => exact ⟨fun h => absurd h.2 hne, fun h => h s'' hs''⟩
        next hnot => exact ⟨fun h => absurd h.1 hnot, fun h => h s' hs'⟩
      obtain h | ⟨notice', hnotice, hcause, hstore⟩ := h
      · left
        intro s' hs'
        apply (hevicted hs').2 h
      · obtain rfl | hnotice := List.mem_cons.mp hnotice
        · left
          intro s' hs'
          apply (hevicted hs').1 ⟨hcause, hstore⟩
        · right
          exact ⟨notice', hnotice, hcause, hstore⟩

/-- Destroying the store of an entry is what the listener does when the entry expired. -/
theorem modify_hear (p : StorePool) (notices : List Notice) (entry : CacheEntry) :
  (p.hear notices).modify entry.store SearchStore.destroy
    = p.hear (notices ++ [entry.notice .expired])
  := by
  rw [hear, hear, List.foldl_append]
  rfl

end

/-! ### Entries and stores -/

/-- Each entry has the newest store of its query, which goes on, and all other stores were
destroyed. -/
structure Serves (p : StorePool) (entries : List CacheEntry) : Prop where
  newest : ∀ entry ∈ entries, p.latest? entry.query = some entry.store
  lowered : ∀ entry ∈ entries, ∀ s, p.stores[entry.store]? = some s → s.signal.raised = false
  destroyed : ∀ number s, p.stores[number]? = some s →
    (∀ entry ∈ entries, entry.store ≠ number) → s.Destroyed

namespace Serves

variable {p p' : StorePool} {number : Nat} {s : SearchStore} {notices : List Notice}
  {entries : List CacheEntry} {entry entry' : CacheEntry}

theorem exists_store (serves : p.Serves entries) (h : entry ∈ entries) :
  ∃ s, p.stores[entry.store]? = some s ∧ s.key = entry.query ∧ s.signal.raised = false
  := by
  obtain ⟨s, hs, hkey⟩ := exists_of_latest? (serves.newest entry h)
  exact ⟨s, hs, hkey, serves.lowered entry h s hs⟩

theorem store_lt (serves : p.Serves entries) (h : entry ∈ entries) :
  entry.store < p.stores.length
  := by
  obtain ⟨s, hs, -⟩ := serves.exists_store h
  apply (List.getElem?_eq_some_iff.mp hs).1

theorem key_eq (serves : p.Serves entries) (h : entry ∈ entries)
    (hs : p.stores[entry.store]? = some s) :
  s.key = entry.query
  := by
  obtain ⟨s', hs', hkey, -⟩ := serves.exists_store h
  rw [Option.some_inj.mp (hs.symm.trans hs'), hkey]

/-- Entries have the same store exactly if they have the same query. -/
theorem store_eq_iff (serves : p.Serves entries) (h : entry ∈ entries) (h' : entry' ∈ entries) :
  entry.store = entry'.store ↔ entry.query = entry'.query
  := by
  constructor
  case mp =>
    intro hstore
    obtain ⟨s, hs, hkey, -⟩ := serves.exists_store h
    rw [hstore] at hs
    rw [← hkey, serves.key_eq h' hs]
  case mpr =>
    intro hquery
    have hnewest := serves.newest entry h
    rw [hquery, serves.newest entry' h'] at hnewest
    exact (Option.some_inj.mp hnewest).symm

/-- A store goes on exactly if an entry has it. -/
theorem raised_eq_false_iff (serves : p.Serves entries) (h : p.stores[number]? = some s) :
  s.signal.raised = false ↔ ∃ entry ∈ entries, entry.store = number
  := by
  constructor
  case mp =>
    intro lowered
    by_contra hnone
    have raised := (serves.destroyed number s h (by simpa using hnone)).raised
    rw [raised] at lowered
    contradiction
  case mpr =>
    rintro ⟨entry, hentry, rfl⟩
    apply serves.lowered entry hentry s h

/-- Entries of different queries that have the same store are the same. -/
theorem eq_of_store (serves : p.Serves entries) (distinct : (entries.map (·.query)).Nodup) :
  ∀ entry ∈ entries, ∀ entry' ∈ entries, entry.store = entry'.store → entry = entry'
  := by
  intro entry hentry entry' hentry' hstore
  apply List.inj_on_of_nodup_map distinct hentry hentry'
  apply (serves.store_eq_iff hentry hentry').mp hstore

/-- When they were last used does not matter to entries. -/
theorem congr (serves : p.Serves entries) {entries' : List CacheEntry}
    (h : ∀ entry' ∈ entries',
      ∃ entry ∈ entries, entry.query = entry'.query ∧ entry.store = entry'.store)
    (h' : ∀ entry ∈ entries, ∃ entry' ∈ entries', entry'.store = entry.store) :
  p.Serves entries'
  := by
  refine ⟨?_, ?_, ?_⟩
  · intro entry' hentry'
    obtain ⟨entry, hentry, hquery, hstore⟩ := h entry' hentry'
    rw [← hquery, ← hstore]
    apply serves.newest entry hentry
  · intro entry' hentry'
    obtain ⟨entry, hentry, -, hstore⟩ := h entry' hentry'
    rw [← hstore]
    apply serves.lowered entry hentry
  · intro number s hs hnumber
    apply serves.destroyed number s hs
    intro entry hentry
    obtain ⟨entry', hentry', hstore⟩ := h' entry hentry
    rw [← hstore]
    apply hnumber entry' hentry'

/-- Only the stores of a pool matter. -/
theorem congr_stores (serves : p.Serves entries) (h : p'.stores = p.stores) :
  p'.Serves entries
  := by
  refine ⟨?_, ?_, ?_⟩
  · intro entry hentry
    rw [latest?_congr (congrArg _ h)]
    apply serves.newest entry hentry
  · rw [h]
    apply serves.lowered
  · rw [h]
    apply serves.destroyed

/-- What a worker does to a store. -/
theorem modify (serves : p.Serves entries) (number : Nat) {f : SearchStore → SearchStore}
    (same : ∀ s, (f s).key = s.key ∧ (f s).signal = s.signal)
    (hf : ∀ s, s.Destroyed → (f s).Destroyed) :
  (p.modify number f).Serves entries
  := by
  have hkeys := p.map_key_modify number fun s => (same s).1
  refine ⟨?_, ?_, ?_⟩
  · intro entry hentry
    rw [latest?_congr hkeys]
    apply serves.newest entry hentry
  · intro entry hentry s hs
    obtain ⟨s', hs', rfl⟩ := exists_of_modify hs
    split
    · rw [(same s').2]
      apply serves.lowered entry hentry s' hs'
    · apply serves.lowered entry hentry s' hs'
  · intro index s hs hindex
    obtain ⟨s', hs', rfl⟩ := exists_of_modify hs
    have destroyed := serves.destroyed index s' hs' hindex
    split
    · apply hf s' destroyed
    · apply destroyed

/-- The listener leaves the stores of entries alone that were not given up, and destroys those that
were. -/
theorem of_notices (newest : ∀ entry ∈ entries, p.latest? entry.query = some entry.store)
    (lowered : ∀ entry ∈ entries, ∀ s, p.stores[entry.store]? = some s → s.signal.raised = false)
    (spared : ∀ entry ∈ entries, ∀ notice ∈ notices, notice.cause.wasEvicted = true →
      notice.store ≠ entry.store)
    (destroyed : ∀ number, (∀ entry ∈ entries, entry.store ≠ number) →
      (∀ s, p.stores[number]? = some s → s.Destroyed)
        ∨ ∃ notice ∈ notices, notice.cause.wasEvicted = true ∧ notice.store = number) :
  (p.hear notices).Serves entries
  := by
  refine ⟨?_, ?_, ?_⟩
  · intro entry hentry
    rw [latest?_congr (p.same_hear notices).1]
    apply newest entry hentry
  · intro entry hentry s hs
    rw [getElem?_hear (spared entry hentry)] at hs
    apply lowered entry hentry s hs
  · intro number s hs hnumber
    apply destroyed_hear hs (destroyed number hnumber)

section

variable {shelf shelf' : Shelf} {now : Nat} {before : List CacheEntry}

/-- The stores of entries that leave are destroyed, and those of the others go on. -/
theorem shed (sheds : shelf.Sheds now before shelf' notices)
    (separate : ∀ entry ∈ before, ∀ entry' ∈ before, entry.store = entry'.store → entry = entry')
    (newest : ∀ entry ∈ shelf'.entries, p.latest? entry.query = some entry.store)
    (lowered : ∀ entry ∈ shelf'.entries, ∀ s, p.stores[entry.store]? = some s →
      s.signal.raised = false)
    (destroyed : ∀ number s, p.stores[number]? = some s →
      (∀ entry ∈ before, entry.store ≠ number) → s.Destroyed) :
  (p.hear notices).Serves shelf'.entries
  := by
  apply of_notices newest lowered
  case spared =>
    intro entry hentry notice hnotice hcause hstore
    obtain ⟨entry', hentry', hlost, htold⟩ := sheds.meant notice hnotice hcause
    have hstore' : entry'.store = entry.store := (congrArg Notice.store htold).trans hstore
    rw [← separate entry' hentry' entry (sheds.kept hentry) hstore'] at hentry
    exact hlost hentry
  case destroyed =>
    intro number hnumber
    by_cases h : ∃ entry ∈ before, entry.store = number
    · obtain ⟨entry, hentry, rfl⟩ := h
      right
      have hlost : entry ∉ shelf'.entries := fun h => hnumber entry h rfl
      obtain ⟨cause, hcause, hnotice⟩ := sheds.told entry hentry hlost
      exact ⟨_, hnotice, hcause, rfl⟩
    · left
      intro s hs
      apply destroyed number s hs
      simpa using h

/-- Entries leave a shelf. -/
theorem shed_entries (serves : p.Serves shelf.entries)
    (sheds : shelf.Sheds now shelf.entries shelf' notices) :
  (p.hear notices).Serves shelf'.entries
  := shed sheds (serves.eq_of_store shelf.distinct)
    (fun entry hentry => serves.newest entry (sheds.kept hentry))
    (fun entry hentry => serves.lowered entry (sheds.kept hentry)) serves.destroyed

/-- An entry of a shelf is used, and entries leave. -/
theorem shed_used (serves : p.Serves shelf.entries) {query : QueryKey}
    (sheds : shelf.Sheds now (shelf.used now query) shelf' notices) :
  (p.hear notices).Serves shelf'.entries
  := by
  have hserves : p.Serves (shelf.used now query) := by
    apply serves.congr
    · intro entry hentry
      apply Shelf.mem_used hentry
    · intro entry hentry
      obtain ⟨entry', hentry', -, hstore⟩ := Shelf.exists_mem_used hentry now query
      exact ⟨entry', hentry', hstore⟩
  exact shed sheds (hserves.eq_of_store (shelf.distinct_used now query))
    (fun entry hentry => hserves.newest entry (sheds.kept hentry))
    (fun entry hentry => hserves.lowered entry (sheds.kept hentry)) hserves.destroyed

/-- An entry for a new store takes the place of what there was for its query, and entries leave. -/
theorem shed_new (serves : p.Serves shelf.entries) {made : SearchStore} {lastUsed : Nat}
    (lowered : made.signal.raised = false) (hstores : p'.stores = p.stores ++ [made])
    (sheds : shelf.Sheds now (shelf.entries ++ [⟨made.key, p.stores.length, lastUsed⟩]) shelf'
      notices)
    (alone : ∀ entry ∈ shelf'.entries, entry.query = made.key →
      entry = ⟨made.key, p.stores.length, lastUsed⟩) :
  (p'.hear notices).Serves shelf'.entries
  := by
  have hkept : ∀ entry ∈ shelf'.entries, entry = ⟨made.key, p.stores.length, lastUsed⟩
      ∨ entry ∈ shelf.entries ∧ made.key ≠ entry.query := by
    intro entry hentry
    by_cases hquery : entry.query = made.key
    · exact .inl (alone entry hentry hquery)
    · obtain hmem | hmem := List.mem_append.mp (sheds.kept hentry)
      · exact .inr ⟨hmem, Ne.symm hquery⟩
      · exact .inl (List.mem_singleton.mp hmem)
  apply shed sheds
  case separate =>
    intro entry hentry entry' hentry' hstore
    rw [List.mem_append, List.mem_singleton] at hentry hentry'
    obtain hentry | rfl := hentry <;> obtain hentry' | rfl := hentry'
    · apply serves.eq_of_store shelf.distinct entry hentry entry' hentry' hstore
    · exact absurd hstore (Nat.ne_of_lt (serves.store_lt hentry))
    · exact absurd hstore (Nat.ne_of_gt (serves.store_lt hentry'))
    · rfl
  case newest =>
    intro entry hentry
    rw [latest?_concat hstores]
    obtain rfl | ⟨hmem, hquery⟩ := hkept entry hentry
    · rw [if_pos rfl]
    · rw [if_neg hquery]
      apply serves.newest entry hmem
  case lowered =>
    intro entry hentry s hs
    rw [hstores] at hs
    obtain rfl | ⟨hmem, -⟩ := hkept entry hentry
    · rw [List.getElem?_concat_length] at hs
      rw [← Option.some_inj.mp hs]
      apply lowered
    · rw [List.getElem?_append_left (serves.store_lt hmem)] at hs
      apply serves.lowered entry hmem s hs
  case destroyed =>
    intro number s hs hnumber
    rw [List.forall_mem_append, List.forall_mem_singleton] at hnumber
    rw [hstores, List.getElem?_append] at hs
    split at hs
    next => apply serves.destroyed number s hs hnumber.1
    next hle =>
      have hlt := (List.getElem?_eq_some_iff.mp hs).1
      rw [List.length_singleton] at hlt
      have hne : p.stores.length ≠ number := hnumber.2
      omega

/-- An entry is taken out of a shelf and its store is destroyed, and entries leave. -/
theorem shed_removed (serves : p.Serves shelf.entries) {query : QueryKey}
    (sheds : shelf.Sheds now (shelf.without query) shelf' (notices.filter (·.query ≠ query)))
    (about : ∀ notice ∈ notices, notice.query = query →
      ∃ entry, shelf.entryOf? query = some entry ∧ entry.notice notice.cause = notice) :
  (p.hear (notices ++ (shelf.entryOf? query).toList.map (·.notice .expired))).Serves shelf'.entries
  := by
  have hkept : ∀ entry ∈ shelf'.entries, entry ∈ shelf.entries ∧ entry.query ≠ query :=
    fun entry hentry => Shelf.mem_without.mp (sheds.kept hentry)
  have hseparate : ∀ entry ∈ shelf'.entries, ∀ removed, shelf.entryOf? query = some removed →
      removed.store ≠ entry.store := by
    intro entry hentry removed hremoved hstore
    obtain ⟨hmem, hquery⟩ := Shelf.entryOf?_eq_some_iff.mp hremoved
    rw [← serves.eq_of_store shelf.distinct removed hmem entry (hkept entry hentry).1 hstore]
      at hentry
    exact (hkept removed hentry).2 hquery
  apply of_notices
  case newest =>
    intro entry hentry
    apply serves.newest entry (hkept entry hentry).1
  case lowered =>
    intro entry hentry
    apply serves.lowered entry (hkept entry hentry).1
  case spared =>
    intro entry hentry notice hnotice hcause hstore
    rw [List.mem_append, List.mem_map] at hnotice
    obtain hnotice | ⟨removed, hremoved, rfl⟩ := hnotice
    · by_cases hquery : notice.query = query
      · obtain ⟨removed, hremoved, htold⟩ := about notice hnotice hquery
        apply hseparate entry hentry removed hremoved ((congrArg Notice.store htold).trans hstore)
      · have hfilter : notice ∈ notices.filter (·.query ≠ query) := by simp [hnotice, hquery]
        obtain ⟨lost, hlost, hleft, htold⟩ := sheds.meant notice hfilter hcause
        have heq := serves.eq_of_store shelf.distinct lost (Shelf.mem_without.mp hlost).1 entry
          (hkept entry hentry).1 ((congrArg Notice.store htold).trans hstore)
        rw [heq] at hleft
        exact hleft hentry
    · exact hseparate entry hentry removed (Option.mem_toList.mp hremoved) hstore
  case destroyed =>
    intro number hnumber
    by_cases h : ∃ entry ∈ shelf.entries, entry.store = number
    · obtain ⟨entry, hentry, rfl⟩ := h
      right
      by_cases hquery : entry.query = query
      · have hremoved : shelf.entryOf? query = some entry :=
          Shelf.entryOf?_eq_some_iff.mpr ⟨hentry, hquery⟩
        refine ⟨entry.notice .expired, List.mem_append_right _ ?_, rfl, rfl⟩
        rw [hremoved]
        apply List.mem_singleton_self
      · have hlost : entry ∉ shelf'.entries := fun h => hnumber entry h rfl
        obtain ⟨cause, hcause, hnotice⟩ :=
          sheds.told entry (Shelf.mem_without.mpr ⟨hentry, hquery⟩) hlost
        exact ⟨_, List.mem_append_left _ (List.mem_filter.mp hnotice).1, hcause, rfl⟩
    · left
      intro s hs
      apply serves.destroyed number s hs
      simpa using h

end

end Serves

end StorePool

end Collate
