import Mathlib.Data.List.Nodup
import Collate.Search.Shelf

/-!
# What a cache library may do

A shelf has one entry for each key, so that finding a key and holding an entry for it are the same.
Entries leave a shelf only if they were idle or if there were too many, and the library that keeps
its entries in a list is lawful.
-/

namespace Collate

namespace Shelf

variable {s s' : Shelf} {now : Nat} {query : QueryKey} {entry : CacheEntry}

/-! ### Entries -/

/-- The entry of a key is one of the entries, and there is no other. -/
theorem entryOf?_eq_some_iff :
  s.entryOf? query = some entry ↔ entry ∈ s.entries ∧ entry.query = query
  := by
  constructor
  case mp =>
    intro h
    use List.mem_of_find?_eq_some h
    simpa using List.find?_some h
  case mpr =>
    rintro ⟨hentry, rfl⟩
    obtain ⟨found, hfound⟩ : ∃ found, s.entryOf? entry.query = some found := by
      apply Option.isSome_iff_exists.mp
      simpa [entryOf?] using ⟨entry, hentry, rfl⟩
    have hmem := List.mem_of_find?_eq_some hfound
    have hquery : found.query = entry.query := by simpa using List.find?_some hfound
    rw [hfound, List.inj_on_of_nodup_map s.distinct hmem hentry hquery]

/-- The entry of a key is found unless it is idle. -/
theorem live?_eq_some_iff :
  s.live? now query = some entry
    ↔ (entry ∈ s.entries ∧ entry.query = query) ∧ s.isIdle now entry = false
  := by
  rw [live?, Option.filter_eq_some_iff, entryOf?_eq_some_iff, Bool.not_eq_true']

/-- An entry whose key is not found is idle. -/
theorem isIdle_of_live?_eq_none (h : s.live? now query = none) (hentry : entry ∈ s.entries)
    (hquery : entry.query = query) :
  s.isIdle now entry = true
  := by
  by_contra hlive
  have hfound : s.live? now query = some entry :=
    live?_eq_some_iff.mpr ⟨⟨hentry, hquery⟩, eq_false_of_ne_true hlive⟩
  rw [h] at hfound
  contradiction

theorem mem_without :
  entry ∈ s.without query ↔ entry ∈ s.entries ∧ entry.query ≠ query
  := by
  simp [without]

/-- Using an entry changes neither its key nor its value. -/
theorem mem_used (h : entry ∈ s.used now query) :
  ∃ entry' ∈ s.entries, entry'.query = entry.query ∧ entry'.store = entry.store
  := by
  obtain ⟨entry', hentry', rfl⟩ := List.mem_map.mp h
  refine ⟨entry', hentry', ?_⟩
  split <;> exact ⟨rfl, rfl⟩

/-- Every entry has its key and its value among the entries that have been used. -/
theorem exists_mem_used (h : entry ∈ s.entries) (now : Nat) (query : QueryKey) :
  ∃ entry' ∈ s.used now query, entry'.query = entry.query ∧ entry'.store = entry.store
  := by
  refine ⟨_, List.mem_map_of_mem h, ?_⟩
  split <;> exact ⟨rfl, rfl⟩

/-! ### Entries that leave -/

/-- Nothing leaves when all entries are kept. -/
theorem sheds_hold (s : Shelf) (now : Nat) {entries : List CacheEntry}
    (distinct : (entries.map (·.query)).Nodup) :
  s.Sheds now entries (s.hold entries distinct) []
  where
  capacity := rfl
  timeToIdle := rfl
  kept := List.Subset.refl _
  due _ hentry hlost := absurd hentry hlost
  told _ hentry hlost := absurd hentry hlost
  meant := List.forall_mem_nil _

namespace Sheds

variable {before : List CacheEntry} {notices : List Notice}

/-- Where no entry is idle and there is room for all, none leaves. -/
theorem mem_iff (sheds : s.Sheds now before s' notices)
    (fresh : ∀ entry ∈ before, s.isIdle now entry = false) (room : before.length ≤ s.capacity) :
  entry ∈ s'.entries ↔ entry ∈ before
  := by
  constructor
  case mp => apply sheds.kept
  case mpr =>
    intro hentry
    by_contra hlost
    obtain idle | crowded := sheds.due entry hentry hlost
    · rw [fresh entry hentry] at idle
      contradiction
    · omega

/-- Where no entry leaves, the listener is not told of any. -/
theorem wasEvicted_eq_false (sheds : s.Sheds now before s' notices)
    (h : ∀ entry ∈ before, entry ∈ s'.entries) :
  ∀ notice ∈ notices, notice.cause.wasEvicted = false
  := by
  intro notice hnotice
  by_contra evicted
  obtain ⟨entry, hentry, hlost, -⟩ :=
    sheds.meant notice hnotice (eq_true_of_ne_false evicted)
  exact hlost (h entry hentry)

end Sheds

/-! ### Entries in a list -/

/-- An idle entry makes room for a new value of its key. -/
theorem sheds_put (absent : s.live? now query = none) {store : Nat}
    (new : ∀ entry ∈ s.entries, entry.store ≠ store) :
  s.Sheds now (s.entries ++ [⟨query, store, now⟩])
    (s.hold (s.put now query store) (s.distinct_put now query store))
    ((s.entryOf? query).toList.map (·.notice .expired))
  := by
  have hlost : ∀ entry ∈ s.entries ++ [⟨query, store, now⟩], entry ∉ s.put now query store →
      s.entryOf? query = some entry := by
    intro entry hentry hlost
    rw [put, List.mem_append, not_or] at hlost
    obtain hentry | hentry := List.mem_append.mp hentry
    · apply entryOf?_eq_some_iff.mpr
      use hentry
      by_contra hquery
      exact hlost.1 (mem_without.mpr ⟨hentry, hquery⟩)
    · exact absurd hentry hlost.2
  refine ⟨rfl, rfl, ?kept, ?due, ?told, ?meant⟩
  case kept =>
    apply List.append_subset.mpr
    constructor
    · exact fun entry hentry => List.mem_append_left _ (mem_without.mp hentry).1
    · apply List.subset_append_right
  case due =>
    intro entry hentry hentry'
    obtain ⟨hmem, hquery⟩ := entryOf?_eq_some_iff.mp (hlost entry hentry hentry')
    left
    apply isIdle_of_live?_eq_none absent hmem hquery
  case told =>
    intro entry hentry hentry'
    use .expired, rfl
    rw [hlost entry hentry hentry']
    apply List.mem_singleton_self
  case meant =>
    intro notice hnotice _
    obtain ⟨entry, hentry, rfl⟩ := List.mem_map.mp hnotice
    obtain ⟨hmem, hquery⟩ := entryOf?_eq_some_iff.mp (Option.mem_toList.mp hentry)
    refine ⟨entry, List.mem_append_left _ hmem, ?_, rfl⟩
    change entry ∉ s.put now query store
    rw [put, List.mem_append, not_or, mem_without, List.mem_singleton]
    constructor
    · exact fun h => h.2 hquery
    · rintro rfl
      exact new _ hmem rfl

/-- Idle entries are swept out, and the last of the others, if there is no room for them. -/
theorem sheds_roomy (s : Shelf) (now : Nat) :
  s.Sheds now s.entries (s.hold (s.roomy now) (s.distinct_roomy now))
    ((s.entries.filter (s.isIdle now)).map (·.notice .expired)
      ++ ((s.entries.filter (!s.isIdle now ·)).drop s.capacity).map (·.notice .size))
  := by
  have hlost : ∀ entry ∈ s.entries, entry ∉ s.roomy now → s.isIdle now entry = false →
      entry ∈ (s.entries.filter (!s.isIdle now ·)).drop s.capacity := by
    intro entry hentry hlost hlive
    have hmem : entry ∈ s.entries.filter (!s.isIdle now ·) := by simp [hentry, hlive]
    rw [← List.take_append_drop s.capacity (s.entries.filter _), List.mem_append] at hmem
    exact hmem.resolve_left hlost
  refine ⟨rfl, rfl, ?kept, ?due, ?told, ?meant⟩
  case kept => apply ((List.take_sublist ..).trans List.filter_sublist).subset
  case due =>
    intro entry hentry hentry'
    cases hidle : s.isIdle now entry with
    | true => exact .inl rfl
    | false =>
        right
        have hdrop := List.length_pos_of_mem (hlost entry hentry hentry' hidle)
        have hfilter := List.length_filter_le (!s.isIdle now ·) s.entries
        rw [List.length_drop] at hdrop
        omega
  case told =>
    intro entry hentry hentry'
    cases hidle : s.isIdle now entry with
    | true =>
        use .expired, rfl
        apply List.mem_append_left
        apply List.mem_map_of_mem
        simp [hentry, hidle]
    | false =>
        use .size, rfl
        apply List.mem_append_right
        apply List.mem_map_of_mem (hlost entry hentry hentry' hidle)
  case meant =>
    intro notice hnotice _
    obtain hnotice | hnotice := List.mem_append.mp hnotice
    · obtain ⟨entry, hentry, rfl⟩ := List.mem_map.mp hnotice
      obtain ⟨hmem, hidle⟩ := List.mem_filter.mp hentry
      refine ⟨entry, hmem, ?_, rfl⟩
      intro htake
      have hlive := (List.mem_filter.mp (List.mem_of_mem_take htake)).2
      rw [hidle] at hlive
      contradiction
    · obtain ⟨entry, hentry, rfl⟩ := List.mem_map.mp hnotice
      refine ⟨entry, (List.mem_filter.mp (List.mem_of_mem_drop hentry)).1, ?_, rfl⟩
      intro htake
      have hnodup := (s.distinct.of_map _).filter (!s.isIdle now ·)
      exact List.disjoint_take_drop hnodup (Nat.le_refl _) htake hentry

/-- The library that keeps its entries in a list may be relied on. -/
theorem library_lawful :
  library.Lawful fun s => s
  where
  build _ _ := rfl
  containsKey _ _ _ := rfl
  found s now query entry init state h := by
    refine ⟨_, _, ?_, s.sheds_hold now (s.distinct_used now query)⟩
    simp only [library, h]
  computed s now query store init state h hinit new := by
    refine ⟨_, _, ?_, sheds_put h new, ?_⟩
    · simp only [library, h]
      rcases hstate : init state with ⟨state', outcome⟩
      rw [hstate] at hinit
      obtain rfl : outcome = _ := hinit
      rfl
    · intro entry hentry hquery
      obtain hentry | hentry := List.mem_append.mp hentry
      · exact absurd hquery (mem_without.mp hentry).2
      · apply List.mem_singleton.mp hentry
  failed s now query fault init state h hinit := by
    refine ⟨s, [], ?_, s.sheds_hold now s.distinct⟩
    simp only [library, h]
    rcases hstate : init state with ⟨state', outcome⟩
    rw [hstate] at hinit
    obtain rfl : outcome = _ := hinit
    rfl
  remove s now query := by
    refine ⟨_, _, rfl, ?_, ?_⟩
    · have hnone : ((s.entryOf? query).toList.map (·.notice .explicit)).filter (·.query ≠ query)
          = [] := by
        rw [List.filter_eq_nil_iff]
        intro notice hnotice
        obtain ⟨entry, hentry, rfl⟩ := List.mem_map.mp hnotice
        have hquery := (entryOf?_eq_some_iff.mp (Option.mem_toList.mp hentry)).2
        simp [CacheEntry.notice, hquery]
      rw [hnone]
      apply s.sheds_hold now (s.distinct_without query)
    · intro notice hnotice _
      obtain ⟨entry, hentry, rfl⟩ := List.mem_map.mp hnotice
      exact ⟨entry, Option.mem_toList.mp hentry, rfl⟩
  swept s now := by
    refine ⟨_, _, rfl, s.sheds_roomy now, ?_, List.length_take_le _ _⟩
    intro entry hentry
    have hlive := (List.mem_filter.mp (List.mem_of_mem_take hentry)).2
    rwa [Bool.not_eq_true'] at hlive

end Shelf

end Collate
