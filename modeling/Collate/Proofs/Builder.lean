import Collate.Builder
import Collate.Proofs.ChildMap
import Collate.Proofs.Order

/-!
# What a builder keeps

Sorting orders the children of each key by themselves.  Trimming keeps the children of the keys
that are reached from the root through groups that are themselves kept, cut to the size of their
depth, and nothing else.
-/

namespace Collate

@[simp]
theorem Sizes.toNat_size_unbounded (depth : ℕ) :
  (unbounded.size depth).toNat = UInt64.size - 1
  := by
  simp [unbounded, size, UInt64.size]

namespace Builder

/-! ### Reading -/

/-- Rows that have one slot for each field are all taken. -/
theorem read_eq {b : Builder} {payload : Payload}
    (h : ∀ entry ∈ payload, b.plan.slotFault? entry.2 = none) :
  b.read payload = (⟨b.plan, b.rowsByParent.pushAll (payload.map (·.2)), false⟩, none)
  := by
  induction payload generalizing b with
  | nil => rfl
  | cons entry payload ih =>
      obtain ⟨key, row⟩ := entry
      have hrow : b.plan.slotFault? row = none := h _ List.mem_cons_self
      rw [read, hrow]
      apply ih
      intro entry hentry
      apply h entry (List.mem_cons_of_mem _ hentry)

/-! ### Sorting -/

theorem children_sort {b : Builder} (h : b.sorted = false) (parent : Key) :
  b.sort.rowsByParent.children parent
    = (b.rowsByParent.children parent).mergeSort b.plan.mayPrecede
  := by
  rw [sort, h]
  by_cases hsort : b.plan.hasSort = true
  · simp only [hsort, Bool.false_eq_true, if_false, if_true]
    rw [ChildMap.children, ChildMap.find?_mapRows, ChildMap.children]
    cases b.rowsByParent.find? parent <;> simp
  · rw [Bool.not_eq_true] at hsort
    simp only [hsort, Bool.false_eq_true, if_false]
    symm
    apply List.mergeSort_of_pairwise
    apply List.pairwise_of_forall
    apply Plan.mayPrecede_of_not_hasSort hsort

theorem rowsByParent_sort (b : Builder) :
  b.sort.rowsByParent = b.rowsByParent
    ∨ b.sort.rowsByParent = b.rowsByParent.mapRows (·.mergeSort b.plan.mayPrecede)
  := by
  rw [sort]
  split
  · left
    rfl
  · split
    · right
      rfl
    · left
      rfl

theorem sound_sort {b : Builder} (sound : b.rowsByParent.Sound) :
  b.sort.rowsByParent.Sound
  := by
  obtain h | h := b.rowsByParent_sort
  · rw [h]
    apply sound
  · rw [h]
    apply sound.mapRows
    intro rows row hrow
    apply List.mem_mergeSort.mp hrow

theorem occupied_sort {b : Builder} (occupied : b.rowsByParent.Occupied) :
  b.sort.rowsByParent.Occupied
  := by
  obtain h | h := b.rowsByParent_sort
  · rw [h]
    apply occupied
  · rw [h]
    apply occupied.mapRows
    intro rows hnil
    rw [← List.length_eq_zero_iff, List.length_mergeSort] at hnil
    apply List.length_eq_zero_iff.mp hnil

theorem sorted_sort (b : Builder) :
  b.sort.sorted = true
  := by
  rw [sort]
  split
  · assumption
  · split <;> rfl

theorem sort_of_sorted {b : Builder} (h : b.sorted = true) :
  b.sort = b
  := by
  rw [sort, if_pos h]

/-- What a trim leaves is sorted. -/
theorem sort_trim (b : Builder) (sizes : Sizes) :
  (b.trim sizes).sort = b.trim sizes
  := sort_of_sorted (sorted_sort b)

/-! ### Trimming -/

/-- In a family of children the root is reached, and so is each group among the children of a
key that is, as far as these are kept. -/
inductive Reachable (sizes : Sizes) (children : Key → List Row) : Key → Prop where
  | root : Reachable sizes children .root
  | group {parent key : Key} {row : Row} (reached : Reachable sizes children parent)
    (kept : row ∈ sizes.cut parent.length (children parent)) (own : row.key.key? = some key) :
    Reachable sizes children key

/-- How far visiting has come: each key has given up its rows or not, and no group among the
rows kept has been forgotten. -/
structure Visited (sizes : Sizes) (m source : ChildMap) (kept : List (Key × List Row))
    (waiting : List Key) : Prop where
  distinct : (kept.map (·.1)).Nodup
  taken : ∀ key, (kept.lookup key = none ∧ source.find? key = m.find? key)
    ∨ ∃ rows, m.find? key = some rows ∧ kept.lookup key = some (sizes.cut key.length rows)
      ∧ source.find? key = none
  reached : ∀ key, key ∈ waiting ∨ (kept.lookup key).isSome → Reachable sizes m.children key
  root : .root ∈ waiting ∨ source.find? .root = none
  closed : ∀ key rows, kept.lookup key = some rows → ∀ group ∈ ChildMap.groupKeys rows,
    group ∈ waiting ∨ source.find? group = none

variable {sizes : Sizes} {m source : ChildMap} {kept : List (Key × List Row)} {waiting : List Key}
  {parent : Key}

theorem visited_start (sizes : Sizes) (m : ChildMap) :
  Visited sizes m m [] [.root]
  where
  distinct := List.nodup_nil
  taken _ := .inl ⟨rfl, rfl⟩
  reached key h := by
    obtain rfl : key = .root := by simpa using h
    apply Reachable.root
  root := .inl List.mem_cons_self
  closed _ _ h := by simp at h

/-- A key without rows is passed over. -/
theorem Visited.pass (v : Visited sizes m source kept (parent :: waiting))
    (h : source.find? parent = none) :
  Visited sizes m source kept waiting
  := by
  have waits {key : Key} (hkey : key ∈ parent :: waiting ∨ source.find? key = none) :
      key ∈ waiting ∨ source.find? key = none := by
    obtain hw | hs := hkey
    · obtain rfl | hw := List.mem_cons.mp hw
      · right
        apply h
      · left
        apply hw
    · right
      apply hs
  constructor
  case distinct => apply v.distinct
  case taken => apply v.taken
  case reached =>
    intro key hkey
    apply v.reached key (hkey.imp_left (List.mem_cons_of_mem _))
  case root => apply waits v.root
  case closed =>
    intro key rows hkey group hgroup
    apply waits (v.closed key rows hkey group hgroup)

/-- The rows of a key are taken out and kept, and their groups wait in turn. -/
theorem Visited.take {rows : List Row} (v : Visited sizes m source kept (parent :: waiting))
    (h : source.find? parent = some rows) :
  Visited sizes m (source.erase parent) (kept ++ [(parent, sizes.cut parent.length rows)])
    ((ChildMap.groupKeys (sizes.cut parent.length rows)).reverse ++ waiting)
  := by
  have fresh : kept.lookup parent = none ∧ m.find? parent = some rows := by
    obtain ⟨hk, hs⟩ | ⟨_, _, _, hs⟩ := v.taken parent
    · use hk
      rw [← hs, h]
    · rw [h] at hs
      contradiction
  have lookup (key : Key) :
      (kept ++ [(parent, sizes.cut parent.length rows)]).lookup key
        = if key = parent then some (sizes.cut parent.length rows) else kept.lookup key := by
    rw [List.lookup_append]
    by_cases hk : key = parent
    · subst hk
      simp [fresh.1]
    · simp [List.lookup_cons, beq_false_of_ne hk, hk]
  have waits {key : Key} (hkey : key ∈ parent :: waiting ∨ source.find? key = none) :
      key ∈ (ChildMap.groupKeys (sizes.cut parent.length rows)).reverse ++ waiting
        ∨ (source.erase parent).find? key = none := by
    rw [ChildMap.find?_erase]
    by_cases hk : key = parent
    · right
      rw [if_pos hk]
    · rw [if_neg hk]
      apply hkey.imp_left
      intro hw
      obtain rfl | hw := List.mem_cons.mp hw
      · contradiction
      · apply List.mem_append_right _ hw
  constructor
  case distinct =>
    rw [List.map_append]
    apply List.Nodup.append v.distinct (List.nodup_singleton _)
    rw [List.disjoint_singleton]
    intro hmem
    obtain ⟨entry, hentry, rfl⟩ := List.mem_map.mp hmem
    have := List.lookup_eq_none_iff.mp fresh.1 entry hentry
    simp at this
  case taken =>
    intro key
    rw [lookup, ChildMap.find?_erase]
    by_cases hk : key = parent
    · subst hk
      right
      use rows, fresh.2
      simp
    · simp only [if_neg hk]
      apply v.taken key
  case reached =>
    have hparent : Reachable sizes m.children parent := v.reached parent (.inl List.mem_cons_self)
    intro key hkey
    rw [lookup] at hkey
    obtain hw | hk := hkey
    · obtain hnew | hw := List.mem_append.mp hw
      · obtain ⟨row, hrow, hown⟩ := List.mem_filterMap.mp (List.mem_reverse.mp hnew)
        apply hparent.group _ hown
        rw [ChildMap.children, fresh.2]
        apply hrow
      · apply v.reached key (.inl (List.mem_cons_of_mem _ hw))
    · by_cases hk' : key = parent
      · rw [hk']
        apply hparent
      · rw [if_neg hk'] at hk
        apply v.reached key (.inr hk)
  case root => apply waits v.root
  case closed =>
    intro key rows' hkey group hgroup
    rw [lookup] at hkey
    split at hkey
    next =>
      left
      obtain rfl := Option.some.inj hkey
      apply List.mem_append_left _ (List.mem_reverse.mpr hgroup)
    next => apply waits (v.closed key rows' hkey group hgroup)

/-- When no key waits any more, the rows kept are those of the keys that are reached. -/
theorem Visited.lookup_eq (v : Visited sizes m source kept []) (key : Key) :
  (Reachable sizes m.children key → kept.lookup key = (m.find? key).map (sizes.cut key.length))
    ∧ (¬ Reachable sizes m.children key → kept.lookup key = none)
  := by
  have settled {key : Key} (h : key ∈ [] ∨ source.find? key = none) :
      kept.lookup key = (m.find? key).map (sizes.cut key.length) := by
    obtain ⟨hk, hs⟩ | ⟨rows, hm, hk, -⟩ := v.taken key
    · rw [hk, ← hs, h.resolve_left List.not_mem_nil]
      rfl
    · rw [hk, hm]
      rfl
  constructor
  · intro reached
    induction reached with
    | root => apply settled v.root
    | @group parent group row reached hkept hown ih =>
        rw [ChildMap.children] at hkept
        cases hm : m.find? parent with
        | none => simp [hm, Sizes.cut] at hkept
        | some rows =>
            rw [hm] at ih hkept
            apply settled
            apply v.closed parent _ ih group
            apply List.mem_filterMap.mpr
            use row, hkept
  · intro unreached
    rw [← Option.not_isSome_iff_eq_none]
    intro hk
    apply unreached (v.reached key (.inr hk))

theorem Visited.visit (v : Visited sizes m source kept waiting) :
  ∃ source', Visited sizes m source' (visit sizes source kept waiting) []
  := by
  fun_induction Builder.visit sizes source kept waiting with
  | case1 source kept => exact ⟨source, v⟩
  | case2 source kept parent waiting h ih => apply ih (v.pass h)
  | case3 source kept parent waiting rows h rows' ih => apply ih (v.take h)

/-- A map that has the children of the keys that are reached in a family, cut to the size of
their depth, and nothing else. -/
structure Keeps (sizes : Sizes) (children : Key → List Row) (m : ChildMap) : Prop where
  sound : m.Sound
  reached : ∀ {key}, Reachable sizes children key →
    m.children key = sizes.cut key.length (children key)
  lost : ∀ {key}, ¬ Reachable sizes children key → m.children key = []

/-- A key that is reached keeps its children, cut to the size of their depth. -/
theorem children_visit {sizes : Sizes} {m : ChildMap} {key : Key}
    (reached : Reachable sizes m.children key) :
  (⟨visit sizes m [] [.root]⟩ : ChildMap).children key = sizes.cut key.length (m.children key)
  := by
  obtain ⟨source, v⟩ := (visited_start sizes m).visit
  rw [ChildMap.children, ChildMap.find?, (v.lookup_eq key).1 reached, ChildMap.children]
  cases m.find? key with
  | none => simp [Sizes.cut]
  | some rows => rfl

theorem keeps_visit {m : ChildMap} (sound : m.Sound) (sizes : Sizes) :
  Keeps sizes m.children ⟨visit sizes m [] [.root]⟩
  := by
  obtain ⟨source, v⟩ := (visited_start sizes m).visit
  constructor
  case sound =>
    constructor
    · apply v.distinct
    · rintro ⟨key, rows⟩ hentry row hrow
      have hlookup := (lookup_eq_some_iff_mem v.distinct).mpr hentry
      obtain ⟨hnone, -⟩ | ⟨rows', hm, hcut, -⟩ := v.taken key
      · rw [hnone] at hlookup
        contradiction
      · rw [hcut, Option.some.injEq] at hlookup
        rw [← hlookup] at hrow
        apply sound.parent_of_mem_children
        rw [ChildMap.children, hm]
        apply List.mem_of_mem_take hrow
  case reached =>
    intro key hkey
    apply children_visit hkey
  case lost =>
    intro key hkey
    rw [ChildMap.children, ChildMap.find?, (v.lookup_eq key).2 hkey]
    rfl

/-- Trimming keeps the entries of the keys that are reached, and no others. -/
theorem find?_visit (sizes : Sizes) (m : ChildMap) {key : Key} {rows : List Row} :
  (⟨visit sizes m [] [.root]⟩ : ChildMap).find? key = some rows
    ↔ Reachable sizes m.children key ∧ (m.find? key).map (sizes.cut key.length) = some rows
  := by
  obtain ⟨source, v⟩ := (visited_start sizes m).visit
  obtain ⟨hreached, hlost⟩ := v.lookup_eq key
  by_cases h : Reachable sizes m.children key
  · rw [ChildMap.find?, hreached h]
    simp [h]
  · rw [ChildMap.find?, hlost h]
    simp [h]

/-- Everything is kept where nothing is cut and each parent has a row of its own.  The induction is
on the length of the key, which is reached through that of its parent. -/
theorem Keeps.children_eq_of_cut {sizes : Sizes} {children : Key → List Row} {m : ChildMap}
    (keeps : Keeps sizes children m)
    (cut : ∀ key : Key, sizes.cut key.length (children key) = children key)
    (closed : ∀ key, key ≠ .root → children key ≠ [] →
      ∃ row ∈ children key.parent, row.key = .group key) (key : Key) :
  m.children key = children key
  := by
  have hreached (n : ℕ) : ∀ key, key.length = n → children key ≠ [] →
      Reachable sizes children key := by
    induction n with
    | zero =>
        intro key hlength _
        obtain rfl : key = .root := by
          by_contra hroot
          rw [Key.length_of_parent hroot rfl] at hlength
          contradiction
        apply Reachable.root
    | succ n ih =>
        intro key hlength hne
        have hroot : key ≠ .root := by
          rintro rfl
          contradiction
        obtain ⟨row, hrow, hkey⟩ := closed key hroot hne
        have hparent : key.parent.length = n := by
          rw [Key.length_of_parent hroot rfl] at hlength
          omega
        apply (ih key.parent hparent (List.ne_nil_of_mem hrow)).group
        · rw [cut]
          apply hrow
        · rw [hkey]
          rfl
  by_cases hne : children key = []
  · by_cases hkey : Reachable sizes children key
    · rw [keeps.reached hkey, cut]
    · rw [keeps.lost hkey, hne]
  · rw [keeps.reached (hreached _ key rfl hne), cut]

/-- Without bounds nothing is cut that has a row for each parent. -/
theorem Keeps.children_eq {children : Key → List Row} {m : ChildMap}
    (keeps : Keeps .unbounded children m) (fits : ∀ key, (children key).length < UInt64.size)
    (closed : ∀ key, key ≠ .root → children key ≠ [] →
      ∃ row ∈ children key.parent, row.key = .group key) (key : Key) :
  m.children key = children key
  := by
  apply keeps.children_eq_of_cut _ closed
  intro key
  apply List.take_of_length_le
  rw [Sizes.toNat_size_unbounded]
  have := fits key
  omega

end Builder

end Collate
