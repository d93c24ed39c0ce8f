import Collate.Proofs.Walk
import Collate.Proofs.WellFormed

/-!
# The addresses of rows

In a snapshot where each group has one row, a row is found by the positions of the groups around it
and its own position beneath the innermost of them.  A walk goes through the addresses at which no
position is beyond the bounds, in lexicographic order, so that it shows a group before what stands
beneath it, and that before the next row.
-/

namespace Collate

/-- Where a row stands: the positions of the groups around it, the outermost first, and its own
position beneath the innermost of them. -/
structure Address where
  groups : List ℕ
  position : ℕ

namespace Address

def positions (a : Address) : List ℕ :=
  a.groups ++ [a.position]

/-- The lexicographic order, in which a group comes right before what stands beneath it. -/
def Before (a b : Address) : Prop :=
  List.Lex (· < ·) a.positions b.positions

/-- An address that is found beneath the group at a position. -/
def beneath (position : ℕ) (a : Address) : Address :=
  ⟨position :: a.groups, a.position⟩

/-- A row comes before every row nested beneath it. -/
theorem before_beneath (position : ℕ) (a : Address) :
  Before ⟨[], position⟩ (a.beneath position)
  := by
  apply List.Lex.cons
  change List.Lex _ [] a.positions
  cases h : a.positions with
  | nil => simp [positions] at h
  | cons => exact .nil

/-- Nesting two addresses beneath one position keeps their order. -/
theorem Before.beneath {a b : Address} (before : Before a b) (position : ℕ) :
  Before (a.beneath position) (b.beneath position)
  := List.Lex.cons before

/-- An address is not the one it comes before. -/
theorem Before.ne {a b : Address} (before : Before a b) :
  a ≠ b
  := by
  rintro rfl
  apply List.lex_irrefl (fun i => Nat.lt_irrefl i) a.positions before

/-- The address of a row at a position, and those of what stands beneath it. -/
def branch (below : Row → List Address) (numbered : Row × ℕ) : List Address :=
  ⟨[], numbered.2⟩ :: (below numbered.1).map (beneath numbered.2)

section

variable {below : Row → List Address} {rows : List Row}

/-- The addresses of a branch all start at the position of its row. -/
theorem positions_of_mem_branch {numbered : Row × ℕ} {a : Address} (h : a ∈ branch below numbered) :
  ∃ rest, a.positions = numbered.2 :: rest
  := by
  obtain rfl | h := List.mem_cons.mp h
  · exact ⟨[], rfl⟩
  · obtain ⟨a', -, rfl⟩ := List.mem_map.mp h
    exact ⟨a'.positions, rfl⟩

/-- The addresses of numbered rows are those of the branches of the rows, each at its position. -/
theorem mem_branches {a : Address} :
  a ∈ rows.zipIdx.flatMap (branch below)
    ↔ ∃ row position, rows[position]? = some row ∧ a ∈ branch below (row, position)
  := by
  simp only [List.mem_flatMap, Prod.exists, List.mem_zipIdx_iff_getElem?]

theorem mem_branch_top {row : Row} {position position' : ℕ} :
  ⟨[], position⟩ ∈ branch below (row, position') ↔ position = position'
  := by
  simp [branch, beneath]

theorem mem_branch_beneath {row : Row} {position position' : ℕ} {a : Address} :
  a.beneath position ∈ branch below (row, position') ↔ position = position' ∧ a ∈ below row
  := by
  obtain ⟨groups, i⟩ := a
  constructor
  · intro h
    obtain h | h := List.mem_cons.mp h
    · cases h
    · obtain ⟨⟨groups', i'⟩, ha, h⟩ := List.mem_map.mp h
      cases h
      exact ⟨rfl, ha⟩
  · rintro ⟨rfl, ha⟩
    apply List.mem_cons_of_mem
    apply List.mem_map_of_mem ha

/-- Branches of different rows are ordered as the rows are. -/
theorem ordered_branches (h : ∀ row ∈ rows, (below row).Pairwise Before) :
  (rows.zipIdx.flatMap (branch below)).Pairwise Before
  := by
  apply List.pairwise_flatMap.mpr
  constructor
  · intro ⟨row, position⟩ hrow
    apply List.pairwise_cons.mpr
    constructor
    · intro a ha
      obtain ⟨a, -, rfl⟩ := List.mem_map.mp ha
      apply before_beneath
    · apply List.pairwise_map.mpr
      apply (h row _).imp
      · intro a b before
        apply before.beneath
      · rw [List.mem_zipIdx_iff_getElem?] at hrow
        apply List.mem_of_getElem? hrow
  · have positions : rows.zipIdx.Pairwise fun p q => p.2 < q.2 := by
      apply List.pairwise_map.mp
      rw [List.zipIdx_map_snd]
      apply List.pairwise_lt_range' 1
    apply positions.imp
    intro p q lt a ha b hb
    obtain ⟨is, hpositions⟩ := positions_of_mem_branch ha
    obtain ⟨js, hpositions'⟩ := positions_of_mem_branch hb
    rw [Before, hpositions, hpositions']
    exact .rel lt

end

end Address

namespace Snapshot

variable {s : Snapshot}

/-- The key to which positions lead from another key, each that of a group beneath the one
before. -/
def keyAt? (s : Snapshot) (key : Key) (groups : List ℕ) : Option Key :=
  groups.foldlM (fun key position => (s.children key)[position]?.bind (·.key.key?)) key

/-- The row at an address beneath a key. -/
def rowAt? (s : Snapshot) (key : Key) (a : Address) : Option Row :=
  (s.keyAt? key a.groups).bind fun parent => (s.children parent)[a.position]?

/-- There is a row at the address, and neither its own position nor that of any group around it is
beyond the bound for its depth. -/
structure Permits (s : Snapshot) (limits : Sizes) (key : Key) (a : Address) : Prop where
  stands : ∃ row, s.rowAt? key a = some row
  within : ∀ depth position, a.positions[depth]? = some position →
    position < (limits.size (key.length + depth)).toNat

/-- The rows are those at all addresses that are permitted, in the order of the addresses. -/
structure Enumerates (s : Snapshot) (limits : Sizes) (key : Key) (addresses : List Address)
    (rows : List Row) : Prop where
  rows : addresses.map (s.rowAt? key) = rows.map some
  ordered : addresses.Pairwise Address.Before
  permitted : ∀ a, a ∈ addresses ↔ s.Permits limits key a

/-- The key of a nested path is found from the key of its first group on. -/
theorem keyAt?_cons (s : Snapshot) (key : Key) (position : ℕ) (groups : List ℕ) :
  s.keyAt? key (position :: groups)
    = ((s.children key)[position]?.bind (·.key.key?)).bind (s.keyAt? · groups)
  := List.foldlM_cons

/-- The key of a lengthened path is that of the row at the last position, if it is a group. -/
theorem keyAt?_concat (s : Snapshot) (key : Key) (groups : List ℕ) (position : ℕ) :
  s.keyAt? key (groups ++ [position])
    = (s.keyAt? key groups).bind fun parent =>
        (s.children parent)[position]?.bind (·.key.key?)
  := by
  rw [keyAt?, List.foldlM_append]
  apply congrArg (Option.bind _)
  funext parent
  rw [List.foldlM_cons]
  simp

/-- A row nested beneath a position is found from the key of the row at that position. -/
theorem rowAt?_beneath (s : Snapshot) (key : Key) (position : ℕ) (a : Address) :
  s.rowAt? key (a.beneath position)
    = ((s.children key)[position]?.bind (·.key.key?)).bind (s.rowAt? · a)
  := by
  rw [rowAt?, Address.beneath, keyAt?_cons, Option.bind_assoc]
  rfl

/-- A cut list holds the rows whose position lies under the limit of its depth. -/
theorem getElem?_cut {limits : Sizes} {depth position : ℕ} {rows : List Row} {row : Row} :
  (limits.cut depth rows)[position]? = some row
    ↔ rows[position]? = some row ∧ position < (limits.size depth).toNat
  := by
  rw [Sizes.cut, List.getElem?_take]
  split <;> simp [*]

/-- An address of one position is permitted exactly where the cut list of its parent has a row. -/
theorem permits_top {limits : Sizes} {key : Key} {position : ℕ} :
  s.Permits limits key ⟨[], position⟩
    ↔ ∃ row, (limits.cut key.length (s.children key))[position]? = some row
  := by
  simp only [getElem?_cut]
  constructor
  · intro ⟨⟨row, hrow⟩, within⟩
    exact ⟨row, hrow, within 0 position rfl⟩
  · intro ⟨row, hrow, hposition⟩
    use ⟨row, hrow⟩
    intro depth position' h
    cases depth with
    | zero =>
        obtain rfl := Option.some.inj h
        apply hposition
    | succ => cases h

/-- A nested address is permitted when its first position lies under the limit and the rest is
permitted beneath the group that stands there. -/
theorem permits_beneath {limits : Sizes} {key : Key} {position : ℕ} {a : Address}
    (deeper : ∀ row ∈ s.children key, ∀ group, row.key.key? = some group →
      group.length = key.length + 1) :
  s.Permits limits key (a.beneath position)
    ↔ ∃ row, (limits.cut key.length (s.children key))[position]? = some row
        ∧ ∃ group, row.key.key? = some group ∧ s.Permits limits group a
  := by
  simp only [getElem?_cut]
  constructor
  · intro ⟨⟨row, hrow⟩, within⟩
    rw [rowAt?_beneath, Option.bind_eq_some_iff] at hrow
    obtain ⟨group, hgroup, hrow⟩ := hrow
    obtain ⟨parent, hparent, hgroup⟩ := Option.bind_eq_some_iff.mp hgroup
    refine ⟨parent, ⟨hparent, within 0 position rfl⟩, group, hgroup, ⟨row, hrow⟩, ?_⟩
    intro depth position' h
    rw [deeper parent (List.mem_of_getElem? hparent) group hgroup, Nat.add_right_comm]
    apply within (depth + 1) position' h
  · intro ⟨parent, ⟨hparent, hposition⟩, group, hgroup, ⟨row, hrow⟩, within⟩
    constructor
    · use row
      rw [rowAt?_beneath, hparent, Option.bind_some, hgroup, Option.bind_some, hrow]
    · intro depth position' h
      cases depth with
      | zero =>
          obtain rfl := Option.some.inj h
          apply hposition
      | succ depth =>
          have := within depth position' h
          rw [deeper parent (List.mem_of_getElem? hparent) group hgroup, Nat.add_right_comm] at this
          apply this

/-- What a walk shows beneath a row stands at the addresses that are permitted beneath its group. -/
structure EnumeratesBeneath (s : Snapshot) (limits : Sizes) (key : Key) (row : Row)
    (addresses : List Address) : Prop where
  rows : addresses.map (fun a => row.key.key?.bind (s.rowAt? · a))
    = (s.beneath limits key row).map some
  ordered : addresses.Pairwise Address.Before
  permitted : ∀ a, a ∈ addresses ↔ ∃ group, row.key.key? = some group ∧ s.Permits limits group a

section

variable {limits : Sizes} {key : Key}

/-- The addresses of a row and of all that is nested beneath it can be listed in the order of the
walk. -/
theorem exists_enumeratesBeneath {row : Row}
    (deeper : ∀ group, row.key = .group group → key.length < group.length)
    (down : ∀ group, row.key = .group group →
      ∃ addresses, s.Enumerates limits group addresses (s.walk limits group)) :
  ∃ addresses, s.EnumeratesBeneath limits key row addresses
  := by
  cases hkey : row.key with
  | detail parent =>
      use []
      constructor <;> simp [beneath, hkey, RowKey.key?]
  | group group =>
      obtain ⟨addresses, enumerated⟩ := down group hkey
      use addresses
      constructor
      case rows =>
        simp only [beneath, hkey, if_pos (deeper group hkey), ← enumerated.rows]
        rfl
      case ordered => apply enumerated.ordered
      case permitted =>
        intro a
        rw [enumerated.permitted a, hkey]
        simp [RowKey.key?]

/-- The addresses beneath a key are those of the rows, each followed by what is beneath it. -/
theorem enumerates_branches {below : Row → List Address}
    (deeper : ∀ row ∈ s.children key, ∀ group, row.key.key? = some group →
      group.length = key.length + 1)
    (h : ∀ row ∈ limits.cut key.length (s.children key),
      s.EnumeratesBeneath limits key row (below row)) :
  s.Enumerates limits key
    ((limits.cut key.length (s.children key)).zipIdx.flatMap (Address.branch below))
    (s.walk limits key)
  := by
  constructor
  case rows =>
    have hrows := List.zipIdx_map_fst 0 (limits.cut key.length (s.children key))
    rw [walk_eq, List.map_flatMap, List.map_flatMap]
    conv_rhs => rw [← hrows, List.flatMap_map]
    apply List.flatMap_congr
    intro ⟨row, position⟩ hrow
    rw [List.mem_zipIdx_iff_getElem?] at hrow
    have hchild := (getElem?_cut.mp hrow).1
    rw [Address.branch, List.map_cons, List.map_cons, List.map_map,
      ← (h row (List.mem_of_getElem? hrow)).rows]
    apply congrArg₂ List.cons hchild
    apply List.map_congr_left
    intro a _
    rw [Function.comp_apply, rowAt?_beneath, hchild, Option.bind_some]
  case ordered =>
    apply Address.ordered_branches
    intro row hrow
    apply (h row hrow).ordered
  case permitted =>
    intro ⟨groups, position⟩
    rw [Address.mem_branches]
    cases groups with
    | nil =>
        rw [permits_top]
        simp [Address.mem_branch_top]
    | cons i groups =>
        change (∃ row j, _ ∧ Address.beneath i ⟨groups, position⟩ ∈ _)
          ↔ s.Permits limits key (Address.beneath i ⟨groups, position⟩)
        rw [permits_beneath deeper]
        simp only [Address.mem_branch_beneath]
        constructor
        · rintro ⟨row, _, hrow, rfl, ha⟩
          exact ⟨row, hrow, ((h row (List.mem_of_getElem? hrow)).permitted _).mp ha⟩
        · intro ⟨row, hrow, ha⟩
          exact ⟨row, i, hrow, rfl, ((h row (List.mem_of_getElem? hrow)).permitted _).mpr ha⟩

/-- A walk shows the rows at the permitted addresses, if the key of each group is longer by one
value than the key beneath which it stands. -/
theorem exists_enumerates_walk
    (deeper : ∀ key, ∀ row ∈ s.children key, ∀ group, row.key.key? = some group →
      group.length = key.length + 1)
    (limits : Sizes) (key : Key) :
  ∃ addresses, s.Enumerates limits key addresses (s.walk limits key)
  := by
  induction key using walk_induction s limits with
  | step key ih =>
      have hbeneath : ∀ row, ∃ addresses, row ∈ limits.cut key.length (s.children key) →
          s.EnumeratesBeneath limits key row addresses := by
        intro row
        by_cases hrow : row ∈ limits.cut key.length (s.children key)
        · have hlonger : ∀ group, row.key = .group group → key.length < group.length := by
            intro group hkey
            rw [deeper key row (List.mem_of_mem_take hrow) group (by rw [hkey]; rfl)]
            apply Nat.lt_succ_self
          obtain ⟨addresses, enumerated⟩ := exists_enumeratesBeneath hlonger
            fun group hkey => ih row hrow group hkey (hlonger group hkey)
          exact ⟨addresses, fun _ => enumerated⟩
        · exact ⟨[], fun h => absurd h hrow⟩
      choose below hbelow using hbeneath
      exact ⟨_, enumerates_branches (deeper key) hbelow⟩

end

/-! ### Each row has one address -/

section

variable {plan : Plan} {sizes : Sizes}

/-- In a well-formed snapshot a group listed beneath a parent is one level deeper than it. -/
theorem key_of_child (wellFormed : s.WellFormed plan sizes) (keyed : s.Keyed plan) {parent : Key}
    {row : Row} (hrow : row ∈ s.children parent) {key : Key} (hkey : row.key.key? = some key) :
  key ≠ .root ∧ key.parent = parent ∧ key.length = parent.length + 1
  := by
  have hgroup : row.key = .group key := RowKey.key?_eq_some_iff.mp hkey
  have hroot := (keyed.nested row (mem_rows_of_mem_children hrow) key hgroup).1
  have hparent : key.parent = parent := by
    rw [← (wellFormed.rows parent row hrow).1, hgroup]
    rfl
  exact ⟨hroot, hparent, Key.length_of_parent hroot hparent⟩

/-- A walk shows the rows at the permitted addresses. -/
theorem WellFormed.exists_enumerates (wellFormed : s.WellFormed plan sizes) (keyed : s.Keyed plan)
    (limits : Sizes) :
  ∃ addresses, s.Enumerates limits .root addresses (s.walk limits .root)
  := by
  apply exists_enumerates_walk
  intro key row hrow group hgroup
  apply (key_of_child wellFormed keyed hrow hgroup).2.2

/-- No group stands at two positions. -/
theorem position_unique (keyed : s.Keyed plan) {parent key : Key} {i j : ℕ}
    (hi : (s.children parent)[i]?.bind (·.key.key?) = some key)
    (hj : (s.children parent)[j]?.bind (·.key.key?) = some key) :
  i = j
  := by
  have hdistinct : ((s.children parent).filterMap (·.key.key?)).Nodup := by
    by_cases h : s.children parent = []
    · rw [h]
      apply List.nodup_nil
    · apply List.Nodup.sublist _ keyed.distinct
      apply List.Sublist.filterMap
      rw [ChildMap.rows, List.flatMap_def]
      apply List.sublist_flatten_of_mem
      apply List.mem_map_of_mem (mem_entries_of_children h)
  have hordered : ∀ i j : ℕ, (s.children parent)[i]?.bind (·.key.key?) = some key →
      (s.children parent)[j]?.bind (·.key.key?) = some key → ¬ i < j := by
    intro i j hi hj hlt
    obtain ⟨row, hrow, hkey⟩ := Option.bind_eq_some_iff.mp hi
    obtain ⟨row', hrow', hkey'⟩ := Option.bind_eq_some_iff.mp hj
    obtain ⟨hi, rfl⟩ := List.getElem?_eq_some_iff.mp hrow
    obtain ⟨hj, rfl⟩ := List.getElem?_eq_some_iff.mp hrow'
    have := List.pairwise_iff_getElem.mp (List.pairwise_filterMap.mp hdistinct) i j hi hj hlt
    apply this key hkey key hkey' rfl
  apply Nat.le_antisymm
  · apply Nat.le_of_not_lt (hordered j i hj hi)
  · apply Nat.le_of_not_lt (hordered i j hi hj)

/-- The key that a path of positions leads to is as long as the path. -/
theorem keyAt?_length (wellFormed : s.WellFormed plan sizes) (keyed : s.Keyed plan)
    {groups : List ℕ} {key : Key} (h : s.keyAt? .root groups = some key) :
  key.length = groups.length
  := by
  induction groups using List.reverseRecOn generalizing key with
  | nil =>
      obtain rfl := Option.some.inj h
      rfl
  | append_singleton groups position ih =>
      rw [keyAt?_concat] at h
      obtain ⟨parent, hparent, h⟩ := Option.bind_eq_some_iff.mp h
      obtain ⟨row, hrow, hkey⟩ := Option.bind_eq_some_iff.mp h
      rw [(key_of_child wellFormed keyed (List.mem_of_getElem? hrow) hkey).2.2, ih hparent,
        List.length_append, List.length_singleton]

/-- To each key positions lead in one way at most. -/
theorem keyAt?_unique (wellFormed : s.WellFormed plan sizes) (keyed : s.Keyed plan)
    {groups groups' : List ℕ} {key : Key} (h : s.keyAt? .root groups = some key)
    (h' : s.keyAt? .root groups' = some key) :
  groups = groups'
  := by
  induction groups using List.reverseRecOn generalizing key groups' with
  | nil =>
      apply Eq.symm
      apply List.length_eq_zero_iff.mp
      rw [← keyAt?_length wellFormed keyed h', keyAt?_length wellFormed keyed h]
      rfl
  | append_singleton groups position ih =>
      have hlength : groups'.length = groups.length + 1 := by
        rw [← keyAt?_length wellFormed keyed h', keyAt?_length wellFormed keyed h,
          List.length_append, List.length_singleton]
      obtain rfl | ⟨groups', position', rfl⟩ := List.eq_nil_or_concat' groups'
      · contradiction
      rw [keyAt?_concat] at h h'
      obtain ⟨parent, hparent, h⟩ := Option.bind_eq_some_iff.mp h
      obtain ⟨parent', hparent', h'⟩ := Option.bind_eq_some_iff.mp h'
      have hsame : parent = parent' := by
        obtain ⟨row, hrow, hkey⟩ := Option.bind_eq_some_iff.mp h
        obtain ⟨row', hrow', hkey'⟩ := Option.bind_eq_some_iff.mp h'
        rw [← (key_of_child wellFormed keyed (List.mem_of_getElem? hrow) hkey).2.1,
          (key_of_child wellFormed keyed (List.mem_of_getElem? hrow') hkey').2.1]
      subst hsame
      rw [ih hparent hparent', position_unique keyed h h']

/-- Positions lead to every key that has rows beneath it. -/
theorem exists_keyAt? (wellFormed : s.WellFormed plan sizes) (keyed : s.Keyed plan) {key : Key}
    (h : s.children key ≠ []) :
  ∃ groups, s.keyAt? .root groups = some key
  := by
  induction hn : key.length generalizing key with
  | zero =>
      obtain rfl : key = .root := by
        apply Key.isRoot_iff.mp
        simpa [Key.isRoot, Key.length] using hn
      exact ⟨[], rfl⟩
  | succ n ih =>
      have hkey := List.mem_map_of_mem (f := Prod.fst) (mem_entries_of_children h)
      obtain rfl | ⟨row, hrow, hkey⟩ := wellFormed.parents key hkey
      · contradiction
      · have hrow' : row.key.key? = some key := by
          rw [hkey]
          rfl
        have hlength := (key_of_child wellFormed keyed hrow hrow').2.2
        obtain ⟨groups, hgroups⟩ := ih (List.ne_nil_of_mem hrow) (by omega)
        obtain ⟨position, hposition⟩ := List.mem_iff_getElem?.mp hrow
        use groups ++ [position]
        rw [keyAt?_concat, hgroups, Option.bind_some, hposition, Option.bind_some, hrow']

/-- The groups around a row are those of which its parent consists. -/
theorem parent_of_rowAt? (wellFormed : s.WellFormed plan sizes) (keyed : s.Keyed plan) {a : Address}
    {row : Row} (h : s.rowAt? .root a = some row) :
  s.keyAt? .root a.groups = some row.key.parent ∧ row.key.depth = a.groups.length
  := by
  obtain ⟨parent, hparent, hrow⟩ := Option.bind_eq_some_iff.mp h
  obtain ⟨hplace, hdepth, -⟩ := wellFormed.rows parent row (List.mem_of_getElem? hrow)
  rw [hplace, hdepth, ← keyAt?_length wellFormed keyed hparent]
  exact ⟨hparent, rfl⟩

/-- Each row has one address. -/
theorem existsUnique_keyAt? (wellFormed : s.WellFormed plan sizes) (keyed : s.Keyed plan)
    {key : Key} (h : s.children key ≠ []) :
  ∃! groups, s.keyAt? .root groups = some key
  := by
  obtain ⟨groups, hgroups⟩ := exists_keyAt? wellFormed keyed h
  use groups, hgroups
  intro groups' hgroups'
  apply keyAt?_unique wellFormed keyed hgroups' hgroups

/-- What is known of a row from its address is known of all rows that are enumerated. -/
theorem Enumerates.map {α : Type} {limits : Sizes} {key : Key} {addresses : List Address}
    {rows : List Row} (enumerated : s.Enumerates limits key addresses rows) {f : Row → α}
    {g : Address → α} (h : ∀ a row, s.rowAt? key a = some row → f row = g a) :
  rows.map f = addresses.map g
  := by
  have hrows := enumerated.rows
  clear enumerated
  induction addresses generalizing rows with
  | nil =>
      rw [List.map_eq_nil_iff.mp hrows.symm]
      rfl
  | cons a addresses ih =>
      obtain ⟨row, rows, rfl, ha, hrest⟩ := List.map_eq_cons_iff.mp hrows.symm
      rw [List.map_cons, List.map_cons, h a row ha.symm, ih hrest.symm]

/-! ### Walks without bounds -/

/-- Each position of a path that leads to a key lies inside some list of the snapshot. -/
theorem lt_of_keyAt? {key parent : Key} {groups : List ℕ} (h : s.keyAt? key groups = some parent)
    {position : ℕ} (hposition : position ∈ groups) :
  ∃ above, position < (s.children above).length
  := by
  induction groups generalizing key with
  | nil => contradiction
  | cons first groups ih =>
      rw [keyAt?_cons] at h
      obtain ⟨group, hgroup, h⟩ := Option.bind_eq_some_iff.mp h
      obtain rfl | hposition := List.mem_cons.mp hposition
      · obtain ⟨row, hrow, -⟩ := Option.bind_eq_some_iff.mp hgroup
        obtain ⟨hlt, -⟩ := List.getElem?_eq_some_iff.mp hrow
        exact ⟨key, hlt⟩
      · apply ih h hposition

/-- Without bounds every row is permitted. -/
theorem permits_unbounded (wellFormed : s.WellFormed plan sizes) {key : Key} {a : Address} :
  s.Permits .unbounded key a ↔ ∃ row, s.rowAt? key a = some row
  := by
  constructor
  · intro permitted
    apply permitted.stands
  · intro ⟨row, hrow⟩
    use ⟨row, hrow⟩
    intro depth position hposition
    obtain ⟨parent, hparent, hrow⟩ := Option.bind_eq_some_iff.mp hrow
    have hshort : ∃ above, position < (s.children above).length := by
      obtain h | h := List.mem_append.mp (List.mem_of_getElem? hposition)
      · apply lt_of_keyAt? hparent h
      · rw [List.mem_singleton.mp h]
        exact ⟨parent, (List.getElem?_eq_some_iff.mp hrow).1⟩
    obtain ⟨above, hlt⟩ := hshort
    have hcut := wellFormed.cut above
    have hsize := (sizes.size above.length).toNat_lt_size
    rw [Sizes.toNat_size_unbounded]
    omega

/-- The keys with rows beneath them, each with the positions of its rows. -/
def places (s : Snapshot) : List (Option Key × ℕ) :=
  s.rowsByParent.entries.flatMap fun entry =>
    (List.range entry.2.length).map fun position => (some entry.1, position)

/-- There are as many places for rows as the snapshot has rows. -/
theorem length_places (wellFormed : s.WellFormed plan sizes) :
  s.places.length = s.size
  := by
  rw [wellFormed.size, places, List.length_flatMap]
  simp

/-- A place is a parent together with a position inside its list. -/
theorem mem_places (wellFormed : s.WellFormed plan sizes) {key : Option Key} {position : ℕ} :
  (key, position) ∈ s.places ↔ ∃ parent, key = some parent ∧ position < (s.children parent).length
  := by
  constructor
  · intro h
    obtain ⟨⟨parent, rows⟩, hentry, h⟩ := List.mem_flatMap.mp h
    obtain ⟨i, hi, h⟩ := List.mem_map.mp h
    cases h
    have hchildren : s.children parent = rows := by
      rw [children, ChildMap.children, ChildMap.find?,
        (lookup_eq_some_iff_mem wellFormed.distinct).mpr hentry]
      rfl
    use parent, rfl
    rw [hchildren]
    apply List.mem_range.mp hi
  · rintro ⟨parent, rfl, hlt⟩
    have hentry := mem_entries_of_children (List.ne_nil_of_length_pos (Nat.zero_lt_of_lt hlt))
    apply List.mem_flatMap.mpr
    use (parent, s.children parent), hentry
    apply List.mem_map.mpr
    exact ⟨position, List.mem_range.mpr hlt, rfl⟩

/-- No place is listed twice. -/
theorem nodup_places (wellFormed : s.WellFormed plan sizes) :
  s.places.Nodup
  := by
  apply List.nodup_flatMap.mpr
  constructor
  · intro entry _
    apply List.Nodup.map _ List.nodup_range
    intro i j h
    apply (Prod.mk.inj h).2
  · apply (List.pairwise_map.mp wellFormed.distinct).imp
    intro entry entry' hne place h h'
    obtain ⟨_, -, rfl⟩ := List.mem_map.mp h
    obtain ⟨_, -, h'⟩ := List.mem_map.mp h'
    apply hne
    apply (Option.some.inj (Prod.mk.inj h').1).symm

/-- A walk without bounds shows as many rows as there are. -/
theorem length_walk_unbounded (wellFormed : s.WellFormed plan sizes) (keyed : s.Keyed plan) :
  (s.walk .unbounded .root).length = s.size
  := by
  obtain ⟨addresses, enumerated⟩ := wellFormed.exists_enumerates keyed .unbounded
  have hlength : addresses.length = (s.walk .unbounded .root).length := by
    have := congrArg List.length enumerated.rows
    rwa [List.length_map, List.length_map] at this
  have hperm : (addresses.map fun a => (s.keyAt? .root a.groups, a.position)).Perm s.places := by
    apply (List.perm_ext_iff_of_nodup _ (nodup_places wellFormed)).mpr
    · intro ⟨key, position⟩
      rw [mem_places wellFormed, List.mem_map]
      simp only [enumerated.permitted, permits_unbounded wellFormed, Prod.mk.injEq]
      constructor
      · rintro ⟨a, ⟨row, hrow⟩, rfl, rfl⟩
        obtain ⟨parent, hparent, hrow⟩ := Option.bind_eq_some_iff.mp hrow
        exact ⟨parent, hparent, (List.getElem?_eq_some_iff.mp hrow).1⟩
      · rintro ⟨parent, rfl, hlt⟩
        have hrows := List.ne_nil_of_length_pos (Nat.zero_lt_of_lt hlt)
        obtain ⟨groups, hgroups⟩ := exists_keyAt? wellFormed keyed hrows
        refine ⟨⟨groups, position⟩, ⟨(s.children parent)[position], ?_⟩, hgroups, rfl⟩
        rw [rowAt?, hgroups, Option.bind_some]
        apply List.getElem?_eq_getElem hlt
    · have distinct : addresses.Nodup := enumerated.ordered.imp Address.Before.ne
      apply distinct.map_on
      intro a ha b hb same
      obtain ⟨row, hrow⟩ := ((enumerated.permitted a).mp ha).stands
      obtain ⟨parent, hparent, -⟩ := Option.bind_eq_some_iff.mp hrow
      obtain ⟨hkey, hposition⟩ := Prod.mk.inj same
      have hgroups := keyAt?_unique wellFormed keyed hparent (hkey ▸ hparent)
      obtain ⟨groups, position⟩ := a
      obtain ⟨groups', position'⟩ := b
      simp only at hgroups hposition
      rw [hgroups, hposition]
  rw [← length_places wellFormed, ← hperm.length_eq, List.length_map, hlength]

end

end Snapshot

end Collate
