import Collate.ChildMap
import Mathlib.Data.List.Nodup
import Mathlib.Data.List.Perm.Basic

/-!
# Child maps as families of lists

A sound map has one entry for each of its keys, with rows of that parent only.  It is then the
same thing as the family of its children: its rows are a listing of them, and which listing it is
depends on the order of the entries alone.
-/

namespace Collate

theorem Key.isRoot_iff {key : Key} :
  key.isRoot = true ↔ key = .root
  := by
  obtain ⟨values⟩ := key
  simp [isRoot, root]

/-- A key is one longer than the key of its parent. -/
theorem Key.length_of_parent {key parent : Key} (h : key ≠ .root) (hparent : key.parent = parent) :
  key.length = parent.length + 1
  := by
  obtain ⟨values⟩ := key
  subst hparent
  cases values with
  | nil => simp [root] at h
  | cons v values => simp [length, Key.parent]

theorem RowKey.key?_eq_some_iff {rowKey : RowKey} {key : Key} :
  rowKey.key? = some key ↔ rowKey = .group key
  := by
  cases rowKey <;> simp [RowKey.key?]

/-- The rows of a list that stand beneath a key. -/
def rowsUnder (parent : Key) (rows : List Row) : List Row :=
  rows.filter fun row => row.key.parent = parent

/-- The rows beneath a key are those whose keys have it as their parent. -/
@[simp]
theorem mem_rowsUnder {parent : Key} {rows : List Row} {row : Row} :
  row ∈ rowsUnder parent rows ↔ row ∈ rows ∧ row.key.parent = parent
  := by
  simp [rowsUnder]

@[simp]
theorem rowsUnder_nil (parent : Key) :
  rowsUnder parent [] = []
  := rfl

@[simp]
theorem rowsUnder_append (parent : Key) (rows rows' : List Row) :
  rowsUnder parent (rows ++ rows') = rowsUnder parent rows ++ rowsUnder parent rows'
  := List.filter_append _ _

theorem rowsUnder_cons (parent : Key) (row : Row) (rows : List Row) :
  rowsUnder parent (row :: rows)
    = if row.key.parent = parent then row :: rowsUnder parent rows else rowsUnder parent rows
  := by
  simp [rowsUnder, List.filter_cons]

/-- There are no more rows beneath a key than there are rows. -/
theorem length_rowsUnder_le (parent : Key) (rows : List Row) :
  (rowsUnder parent rows).length ≤ rows.length
  := List.length_filter_le _ _

/-- Two lists have the same rows if they have the same rows beneath each key. -/
theorem perm_of_rowsUnder {rows rows' : List Row}
    (h : ∀ parent, (rowsUnder parent rows).Perm (rowsUnder parent rows')) :
  rows.Perm rows'
  := by
  apply List.perm_iff_count.mpr
  intro row
  have count (rows : List Row) : (rowsUnder row.key.parent rows).count row = rows.count row :=
    List.count_filter (by simp)
  rw [← count rows, ← count rows']
  apply (h row.key.parent).count_eq

/-- What is found in a list of entries is one of them. -/
theorem mem_of_lookup {α β : Type} [DecidableEq α] {entries : List (α × β)} {a : α} {b : β}
    (h : entries.lookup a = some b) :
  (a, b) ∈ entries
  := by
  obtain ⟨before, after, rfl, -⟩ := List.lookup_eq_some_iff.mp h
  apply List.mem_append_right _ List.mem_cons_self

/-- Where no key occurs twice, looking one up finds what stands beside it. -/
theorem lookup_eq_some_iff_mem {α β : Type} [DecidableEq α] {entries : List (α × β)}
    (distinct : (entries.map (·.1)).Nodup) {a : α} {b : β} :
  entries.lookup a = some b ↔ (a, b) ∈ entries
  := by
  constructor
  · apply mem_of_lookup
  · intro h
    obtain ⟨before, after, rfl⟩ := List.append_of_mem h
    apply List.lookup_eq_some_iff.mpr
    use before, after, rfl
    intro entry hentry
    rw [bne_iff_ne]
    rintro rfl
    rw [List.map_append, List.nodup_append] at distinct
    apply distinct.2.2 entry.1 (List.mem_map_of_mem hentry) entry.1 _ rfl
    simp

namespace ChildMap

/-- Each key has one entry at most, and every row stands in the entry of its parent. -/
structure Sound (m : ChildMap) : Prop where
  distinct : (m.entries.map (·.1)).Nodup
  placed : ∀ entry ∈ m.entries, ∀ row ∈ entry.2, row.key.parent = entry.1

/-- The empty map is sound. -/
theorem sound_empty :
  empty.Sound
  := ⟨List.nodup_nil, by simp [empty]⟩

/-! ### Adding rows -/

/-- Appending a row beneath a key changes what is found for that key alone. -/
theorem lookup_appendTo (parent k : Key) (row : Row) (entries : List (Key × List Row)) :
  (appendTo parent row entries).lookup k
    = if k = parent then some ((entries.lookup k).getD [] ++ [row]) else entries.lookup k
  := by
  induction entries with
  | nil =>
      by_cases hk : k = parent <;> simp [appendTo, hk]
  | cons entry entries ih =>
      obtain ⟨k', rows⟩ := entry
      rw [appendTo]
      split
      next same =>
        subst same
        by_cases hk : k = k'
        · simp [hk]
        · simp [List.lookup_cons, beq_false_of_ne hk, hk]
      next other =>
        by_cases hk : k = k'
        · subst hk
          simp [other]
        · rw [List.lookup_cons, List.lookup_cons, beq_false_of_ne hk, ih]

/-- Appending a row beneath a key adds the key at the end, unless it is there. -/
theorem map_fst_appendTo (parent : Key) (row : Row) (entries : List (Key × List Row)) :
  (appendTo parent row entries).map (·.1)
    = if parent ∈ entries.map (·.1) then entries.map (·.1) else entries.map (·.1) ++ [parent]
  := by
  induction entries with
  | nil => rfl
  | cons entry entries ih =>
      obtain ⟨k, rows⟩ := entry
      rw [appendTo]
      split
      next same => simp [same]
      next other =>
        rw [List.map_cons, List.map_cons, ih]
        by_cases hmem : parent ∈ entries.map (·.1)
        · rw [if_pos hmem, if_pos (List.mem_cons_of_mem k hmem)]
        · rw [if_neg hmem, if_neg]
          · rfl
          · rw [List.mem_cons, not_or]
            use Ne.symm other

/-- A row behind an appending is the one that was appended, or was there under the same key. -/
theorem mem_appendTo {parent : Key} {row : Row} {entries : List (Key × List Row)}
    {entry : Key × List Row} (h : entry ∈ appendTo parent row entries) :
  ∀ row' ∈ entry.2, (entry.1 = parent ∧ row' = row) ∨ ∃ rows, (entry.1, rows) ∈ entries ∧ row' ∈ rows
  := by
  induction entries with
  | nil =>
      obtain rfl := List.mem_singleton.mp h
      intro row' hrow'
      left
      use rfl, List.mem_singleton.mp hrow'
  | cons first entries ih =>
      obtain ⟨k, rows⟩ := first
      intro row' hrow'
      rw [appendTo] at h
      split at h
      next same =>
        obtain rfl | h := List.mem_cons.mp h
        · obtain hrow' | hrow' := List.mem_append.mp hrow'
          · right
            use rows, List.mem_cons_self
          · left
            use same, List.mem_singleton.mp hrow'
        · right
          use entry.2, List.mem_cons_of_mem _ h
      next other =>
        obtain rfl | h := List.mem_cons.mp h
        · right
          use rows, List.mem_cons_self
        · obtain hnew | ⟨rows', hrows', hmem⟩ := ih h row' hrow'
          · left
            apply hnew
          · right
            use rows', List.mem_cons_of_mem _ hrows'

/-- A row that is pushed goes beneath its own parent, so that the map stays sound. -/
theorem Sound.push {m : ChildMap} (sound : m.Sound) (row : Row) :
  (m.push row).Sound
  := by
  constructor
  · rw [ChildMap.push, map_fst_appendTo]
    split
    next => apply sound.distinct
    next hmem =>
      apply List.Nodup.append sound.distinct (List.nodup_singleton _)
      simpa using hmem
  · intro entry hentry row' hrow'
    obtain ⟨hk, rfl⟩ | ⟨rows, hrows, hmem⟩ := mem_appendTo hentry row' hrow'
    · rw [hk]
    · apply sound.placed _ hrows row' hmem

/-- A row that is pushed comes behind the children that its parent had. -/
theorem children_push (m : ChildMap) (row : Row) (parent : Key) :
  (m.push row).children parent = m.children parent ++ rowsUnder parent [row]
  := by
  rw [children, find?, ChildMap.push, lookup_appendTo, rowsUnder_cons]
  by_cases h : row.key.parent = parent
  · subst h
    simp [children, find?]
  · simp [children, find?, h, Ne.symm h]

/-- A map with rows added one after the other. -/
def pushAll (m : ChildMap) (rows : List Row) : ChildMap :=
  rows.foldl push m

/-- Pushing rows leaves a map sound. -/
theorem Sound.pushAll {m : ChildMap} (sound : m.Sound) (rows : List Row) :
  (m.pushAll rows).Sound
  := by
  induction rows generalizing m with
  | nil => apply sound
  | cons row rows ih => apply ih (sound.push row)

/-- Rows that are pushed come behind the children that were there, in their order. -/
theorem children_pushAll (m : ChildMap) (rows : List Row) (parent : Key) :
  (m.pushAll rows).children parent = m.children parent ++ rowsUnder parent rows
  := by
  induction rows generalizing m with
  | nil => simp [pushAll]
  | cons row rows ih =>
      have h := ih (m.push row)
      rw [children_push, List.append_assoc, ← rowsUnder_append] at h
      apply h

/-! ### Reading rows -/

/-- The rows of a sound map beneath a key are the children of the key. -/
theorem Sound.rowsUnder_rows {m : ChildMap} (sound : m.Sound) (parent : Key) :
  rowsUnder parent m.rows = m.children parent
  := by
  obtain ⟨entries⟩ := m
  obtain ⟨distinct, placed⟩ := sound
  simp only [rows, children, find?] at *
  induction entries with
  | nil => rfl
  | cons entry entries ih =>
      obtain ⟨k, rows⟩ := entry
      have ih := ih (List.nodup_cons.mp distinct).2 fun e he => placed e (List.mem_cons_of_mem _ he)
      rw [List.flatMap_cons, rowsUnder_append, ih, List.lookup_cons]
      by_cases hk : parent = k
      · subst hk
        have hrows : rowsUnder parent rows = rows := by
          apply List.filter_eq_self.mpr
          intro row hrow
          simpa using placed _ List.mem_cons_self row hrow
        have hnone : entries.lookup parent = none := by
          rw [List.lookup_eq_none_iff]
          intro e he
          rw [bne_iff_ne]
          intro same
          apply (List.nodup_cons.mp distinct).1
          apply List.mem_map.mpr
          use e, he, same.symm
        simp [hrows, hnone]
      · have hrows : rowsUnder parent rows = [] := by
          apply List.filter_eq_nil_iff.mpr
          intro row hrow
          have := placed _ List.mem_cons_self row hrow
          simpa [this] using Ne.symm hk
        rw [hrows, beq_false_of_ne hk]
        rfl

/-- The children of a key have it as their parent. -/
theorem Sound.parent_of_mem_children {m : ChildMap} (sound : m.Sound) {parent : Key} {row : Row}
    (h : row ∈ m.children parent) :
  row.key.parent = parent
  := by
  rw [← sound.rowsUnder_rows] at h
  apply (mem_rowsUnder.mp h).2

/-- Erasing a key changes what is found for that key alone. -/
theorem find?_erase (m : ChildMap) (parent k : Key) :
  (m.erase parent).find? k = if k = parent then none else m.find? k
  := by
  obtain ⟨entries⟩ := m
  simp only [erase, find?]
  induction entries with
  | nil => simp
  | cons entry entries ih =>
      obtain ⟨k', rows⟩ := entry
      by_cases hk : k' = parent
      · subst hk
        rw [List.filter_cons_of_neg (by simp), ih]
        by_cases h : k = k'
        · rw [if_pos h, if_pos h]
        · rw [if_neg h, if_neg h, List.lookup_cons, beq_false_of_ne h]
      · rw [List.filter_cons_of_pos (by simpa using hk), List.lookup_cons, List.lookup_cons, ih]
        by_cases h : k = k'
        · subst h
          simp [hk]
        · rw [beq_false_of_ne h]

/-! ### Changing the rows of every entry -/

/-- What is done to all lists of a map is done to the one that is found. -/
theorem find?_mapRows (m : ChildMap) (f : List Row → List Row) (k : Key) :
  (m.mapRows f).find? k = (m.find? k).map f
  := by
  obtain ⟨entries⟩ := m
  simp only [mapRows, find?]
  induction entries with
  | nil => rfl
  | cons entry entries ih =>
      rw [List.map_cons, List.lookup_cons, List.lookup_cons, ih]
      split <;> rfl

/-- Lists that only lose rows leave a map sound. -/
theorem Sound.mapRows {m : ChildMap} (sound : m.Sound) {f : List Row → List Row}
    (hf : ∀ rows, ∀ row ∈ f rows, row ∈ rows) :
  (m.mapRows f).Sound
  := by
  constructor
  · simpa [ChildMap.mapRows, Function.comp_def] using sound.distinct
  · intro entry hentry row hrow
    obtain ⟨entry', hentry', rfl⟩ := List.mem_map.mp hentry
    apply sound.placed entry' hentry' row (hf _ row hrow)

/-! ### Entries -/

/-- Every entry has a row. -/
def Occupied (m : ChildMap) : Prop :=
  ∀ key, m.find? key ≠ some []

theorem occupied_empty :
  empty.Occupied
  := by
  intro key
  simp [empty, find?]

/-- A key for which a row is pushed has a child. -/
theorem Occupied.push {m : ChildMap} (occupied : m.Occupied) (row : Row) :
  (m.push row).Occupied
  := by
  intro key
  rw [find?, ChildMap.push, lookup_appendTo]
  split
  · simp
  · apply occupied

theorem Occupied.pushAll {m : ChildMap} (occupied : m.Occupied) (rows : List Row) :
  (m.pushAll rows).Occupied
  := by
  induction rows generalizing m with
  | nil => apply occupied
  | cons row rows ih => apply ih (occupied.push row)

/-- Lists that are emptied only if they were empty leave each key of a map with a child. -/
theorem Occupied.mapRows {m : ChildMap} (occupied : m.Occupied) {f : List Row → List Row}
    (hf : ∀ rows, f rows = [] → rows = []) :
  (m.mapRows f).Occupied
  := by
  intro key h
  rw [find?_mapRows, Option.map_eq_some_iff] at h
  obtain ⟨rows, hrows, hnil⟩ := h
  apply occupied key
  rw [hrows, hf rows hnil]

/-- An occupied map has an entry for each key with children. -/
theorem Occupied.find?_eq_some_iff {m : ChildMap} (occupied : m.Occupied) {key : Key}
    {rows : List Row} :
  m.find? key = some rows ↔ m.children key = rows ∧ rows ≠ []
  := by
  have hkey := occupied key
  rw [children]
  cases h : m.find? key with
  | none => simp [eq_comm]
  | some rows' =>
      rw [h] at hkey
      simp only [Option.some.injEq, Option.getD_some, iff_self_and]
      rintro rfl rfl
      apply hkey rfl

/-- A key is in a map exactly if it is found. -/
theorem mem_map_fst_iff {m : ChildMap} {key : Key} :
  key ∈ m.entries.map (·.1) ↔ (m.find? key).isSome
  := by
  rw [find?, ← not_iff_not, Option.not_isSome_iff_eq_none, List.lookup_eq_none_iff]
  simp only [List.mem_map, not_exists, not_and, bne_iff_ne]
  constructor
  · intro h entry hentry hkey
    apply h entry hentry hkey.symm
  · intro h entry hentry hkey
    apply h entry hentry hkey.symm

end ChildMap

end Collate
