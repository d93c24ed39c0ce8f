import Collate.Proofs.ChildOrder
import Collate.Proofs.Merge
import Collate.Proofs.Trimming

/-!
# What survives a trim

A trim works off the keys that wait for it, one a turn.  A turn passes over a key that has no rows
to give, or takes them out and lets the groups among those that are kept wait in turn, so that there
are no more turns than rows, and one for the root.  What survives are the entries of the keys that
are reached, each cut to the size of its depth.  Since a cut does not change in which order the
remaining keys wait, trimming twice is trimming once by the smaller bounds.
-/

namespace Collate

namespace Builder

/-! ### Turns -/

/-- From keys that wait to what is kept in the end, in so many turns. -/
inductive Turns (sizes : Sizes) :
    ℕ → ChildMap → List (Key × List Row) → List Key → List (Key × List Row) → Prop where
  /-- No key waits any longer. -/
  | done {source : ChildMap} {kept : List (Key × List Row)} : Turns sizes 0 source kept [] kept
  /-- The key never had rows, or has given them up. -/
  | pass {turns : ℕ} {source : ChildMap} {kept result : List (Key × List Row)} {parent : Key}
      {waiting : List Key} (gone : source.find? parent = none)
      (rest : Turns sizes turns source kept waiting result) :
    Turns sizes (turns + 1) source kept (parent :: waiting) result
  /-- The rows of the key are cut and kept, and their groups wait. -/
  | take {turns : ℕ} {source : ChildMap} {kept result : List (Key × List Row)} {parent : Key}
      {waiting : List Key} {rows : List Row} (found : source.find? parent = some rows)
      (rest : Turns sizes turns (source.erase parent)
        (kept ++ [(parent, sizes.cut parent.length rows)])
        ((ChildMap.groupKeys (sizes.cut parent.length rows)).reverse ++ waiting) result) :
    Turns sizes (turns + 1) source kept (parent :: waiting) result

/-- Each turn leaves fewer rows and waiting keys than it finds. -/
theorem exists_turns_visit (sizes : Sizes) (source : ChildMap) (kept : List (Key × List Row))
    (waiting : List Key) :
  ∃ turns ≤ source.size + waiting.length,
    Turns sizes turns source kept waiting (visit sizes source kept waiting)
  := by
  fun_induction visit sizes source kept waiting with
  | case1 source kept => exact ⟨0, Nat.zero_le _, .done⟩
  | case2 source kept parent waiting gone ih =>
      obtain ⟨turns, hturns, rest⟩ := ih
      refine ⟨turns + 1, ?_, .pass gone rest⟩
      rw [List.length_cons]
      omega
  | case3 source kept parent waiting rows found rows' ih =>
      obtain ⟨turns, hturns, rest⟩ := ih
      refine ⟨turns + 1, ?_, .take found rest⟩
      have hsize := source.size_erase_add_le found
      have hkeys := ChildMap.length_groupKeys_le rows'
      have hcut : rows'.length ≤ rows.length := List.length_take_le' _ rows
      rw [List.length_append, List.length_reverse] at hturns
      rw [List.length_cons]
      omega

/-! ### Rows as a trim finds them -/

/-- The rows beneath a key as they stand when a trim cuts them. -/
def ordered (b : Builder) (parent : Key) : List Row :=
  if b.sorted then b.rowsByParent.children parent
  else (b.rowsByParent.children parent).mergeSort b.plan.mayPrecede

theorem children_sort_eq (b : Builder) :
  b.sort.rowsByParent.children = b.ordered
  := by
  funext parent
  cases hsorted : b.sorted with
  | true => rw [sort_of_sorted hsorted, ordered, if_pos hsorted]
  | false => rw [children_sort hsorted, ordered, hsorted, if_neg Bool.false_ne_true]

theorem isSome_find?_sort (b : Builder) (parent : Key) :
  (b.sort.rowsByParent.find? parent).isSome = (b.rowsByParent.find? parent).isSome
  := by
  obtain h | h := b.rowsByParent_sort
  · rw [h]
  · rw [h, ChildMap.find?_mapRows, Option.isSome_map]

theorem ordered_perm (b : Builder) (parent : Key) :
  (b.ordered parent).Perm (b.rowsByParent.children parent)
  := by
  rw [ordered]
  split
  · rfl
  · apply List.mergeSort_perm

theorem size_sort (b : Builder) :
  b.sort.size = b.size
  := by
  rw [size, size]
  obtain h | h := b.rowsByParent_sort
  · rw [h]
  · rw [h]
    simp [ChildMap.size, ChildMap.rows, ChildMap.mapRows, List.length_flatMap, Function.comp_def]

/-- Whatever is read and trimmed, each key has one entry, of rows that stand beneath it. -/
theorem sound_performAll {b : Builder} (sound : b.rowsByParent.Sound) (ops : List Op) :
  (b.performAll ops).rowsByParent.Sound
  := by
  induction ops generalizing b with
  | nil => apply sound
  | cons op ops ih =>
      apply ih
      cases op with
      | read payload =>
          rw [perform, (read_eq_taken b payload).1]
          apply sound.pushAll
      | trim sizes => apply (keeps_visit (sound_sort sound) sizes).sound

/-- The entries that survive are those of the keys that are reached. -/
theorem find?_trim (b : Builder) (sizes : Sizes) {parent : Key} {rows : List Row} :
  (b.trim sizes).rowsByParent.find? parent = some rows
    ↔ Reachable sizes b.ordered parent ∧ (b.rowsByParent.find? parent).isSome
      ∧ rows = sizes.cut parent.length (b.ordered parent)
  := by
  apply (find?_visit sizes b.sort.rowsByParent).trans
  rw [← isSome_find?_sort, ← children_sort_eq, ChildMap.children]
  cases b.sort.rowsByParent.find? parent with
  | none => simp
  | some rows' => simp [eq_comm]

theorem keeps_trim {b : Builder} (sound : b.rowsByParent.Sound) (sizes : Sizes) :
  Keeps sizes b.ordered (b.trim sizes).rowsByParent
  := by
  rw [← children_sort_eq]
  apply keeps_visit (sound_sort sound)

/-! ### Trimming twice -/

section

variable {sizes : Sizes} {source : ChildMap} {kept : List (Key × List Row)} {parent : Key}
  {waiting : List Key}

theorem visit_of_none (h : source.find? parent = none) :
  visit sizes source kept (parent :: waiting) = visit sizes source kept waiting
  := by
  rw [visit]
  split
  next => rfl
  next rows hrows =>
    rw [h] at hrows
    contradiction

theorem visit_of_some {rows : List Row} (h : source.find? parent = some rows) :
  visit sizes source kept (parent :: waiting)
    = visit sizes (source.erase parent) (kept ++ [(parent, sizes.cut parent.length rows)])
      ((ChildMap.groupKeys (sizes.cut parent.length rows)).reverse ++ waiting)
  := by
  rw [visit]
  split
  next hnone =>
    rw [h] at hnone
    contradiction
  next rows' hrows =>
    obtain rfl : rows = rows' := by
      rw [h] at hrows
      apply Option.some.inj hrows
    rfl

end

variable {s t least : Sizes}

/-- Whether the rows of the keys that are reached have been cut before or not, the same keys wait at
each turn, and the same rows are kept.  What both bounds admit is admitted by the first. -/
theorem visit_eq_of_cut (h : ∀ depth, least.size depth = min (s.size depth) (t.size depth))
    {m source source' : ChildMap} {kept : List (Key × List Row)} {waiting : List Key}
    (hwaiting : ∀ key ∈ waiting, Reachable s m.children key)
    (hsource : ∀ key rows, source.find? key = some rows → m.find? key = some rows)
    (hcut : ∀ key, Reachable s m.children key →
      source'.find? key = (source.find? key).map (s.cut key.length)) :
  visit t source' kept waiting = visit least source kept waiting
  := by
  fun_induction visit least source kept waiting generalizing source'
  case case1 => rw [visit]
  case case2 source kept parent waiting gone ih =>
      have gone' : source'.find? parent = none := by
        rw [hcut parent (hwaiting parent List.mem_cons_self), gone]
        rfl
      rw [visit_of_none gone']
      apply ih _ hsource hcut
      intro key hkey
      apply hwaiting key (List.mem_cons_of_mem _ hkey)
  case case3 source kept parent waiting rows found rows' ih =>
      have reached : Reachable s m.children parent := hwaiting parent List.mem_cons_self
      have found' : source'.find? parent = some (s.cut parent.length rows) := by
        rw [hcut parent reached, found]
        rfl
      rw [visit_of_some found', Sizes.cut_cut (h _)]
      apply ih
      case hwaiting =>
        intro key hkey
        obtain hnew | hkey := List.mem_append.mp hkey
        · obtain ⟨row, hrow, hown⟩ := List.mem_filterMap.mp (List.mem_reverse.mp hnew)
          apply reached.group _ hown
          rw [ChildMap.children, hsource parent rows found, Option.getD_some]
          change row ∈ least.cut parent.length rows at hrow
          rw [← Sizes.cut_cut (h _)] at hrow
          apply List.mem_of_mem_take hrow
        · apply hwaiting key (List.mem_cons_of_mem _ hkey)
      case hsource =>
        intro key rows hrows
        rw [ChildMap.find?_erase] at hrows
        split at hrows
        next => contradiction
        next => apply hsource key rows hrows
      case hcut =>
        intro key hkey
        rw [ChildMap.find?_erase, ChildMap.find?_erase]
        split
        next => rfl
        next => apply hcut key hkey

/-- Trimming twice is trimming once, by bounds that are at each depth the smaller of the two. -/
theorem trim_trim (h : ∀ depth, least.size depth = min (s.size depth) (t.size depth))
    (b : Builder) :
  (b.trim s).trim t = b.trim least
  := by
  have hvisit : visit t (b.trim s).rowsByParent [] [.root]
      = visit least b.sort.rowsByParent [] [.root] := by
    apply visit_eq_of_cut h (m := b.sort.rowsByParent)
    · intro key hkey
      obtain rfl := List.mem_singleton.mp hkey
      apply Reachable.root
    · intro key rows hrows
      apply hrows
    · intro key hkey
      ext rows
      apply (find?_visit s b.sort.rowsByParent).trans
      apply and_iff_right hkey
  rw [trim, sort_trim, hvisit]
  rfl

/-- Whatever a builder has come to, a trim ends after at most one turn for each row and one for the
root.  It keeps the entries of the keys that are reached from the root through groups that are kept,
each with the first rows in the order in which they stand, and no other row.  What remains is listed
once, and a further trim comes to the same as a single one by the smaller bounds. -/
theorem trim_keeps (plan : Plan) (ops : List Op) (s : Sizes) :
  let b := (empty plan).performAll ops
  let m := (b.trim s).rowsByParent
  (∃ turns ≤ b.size + 1, Turns s turns b.sort.rowsByParent [] [.root] m.entries)
    ∧ (m.entries.map (·.1)).Nodup
    ∧ (∀ parent rows, (parent, rows) ∈ m.entries ↔ Reachable s b.ordered parent
      ∧ parent ∈ b.rowsByParent.entries.map (·.1)
      ∧ rows = (b.ordered parent).take (s.size parent.length).toNat)
    ∧ m.rows.Subperm b.rowsByParent.rows
    ∧ (∀ parent, Reachable s b.ordered parent →
      rowsUnder parent m.rows = (b.ordered parent).take (s.size parent.length).toNat)
    ∧ (∀ parent, ¬ Reachable s b.ordered parent → rowsUnder parent m.rows = [])
    ∧ (b.trim s).size = m.rows.length
    ∧ (b.trim s).remaining = m.rows.map (fun row => (row.key, row))
    ∧ (∀ t, (b.trim s).trim t = b.trim (s.meet t)
      ∧ ∀ depth, (s.meet t).size depth = min (s.size depth) (t.size depth))
    ∧ (b.trim s).trim s = b.trim s
  := by
  intro b m
  have sound : b.rowsByParent.Sound := sound_performAll ChildMap.sound_empty ops
  have keeps : Keeps s b.ordered m := keeps_trim sound s
  refine ⟨?turns, keeps.sound.distinct, ?entries, ?subperm, ?reached, ?lost, rfl, rfl, ?twice,
    ?same⟩
  case turns =>
    obtain ⟨turns, hturns, hvisit⟩ := exists_turns_visit s b.sort.rowsByParent [] [.root]
    refine ⟨turns, ?_, hvisit⟩
    rw [← b.size_sort]
    apply hturns
  case entries =>
    intro parent rows
    rw [← lookup_eq_some_iff_mem keeps.sound.distinct, ChildMap.mem_map_fst_iff]
    apply b.find?_trim s
  case subperm =>
    apply keeps.subperm
    intro parent
    rw [sound.rowsUnder_rows]
    apply b.ordered_perm
  case reached =>
    intro parent reached
    rw [keeps.sound.rowsUnder_rows, keeps.reached reached]
    rfl
  case lost =>
    intro parent lost
    rw [keeps.sound.rowsUnder_rows, keeps.lost lost]
  case twice =>
    intro t
    exact ⟨trim_trim (s.size_meet t) b, s.size_meet t⟩
  case same =>
    apply trim_trim
    intro depth
    rw [← UInt64.toNat_inj, UInt64.toNat_min, Nat.min_self]

end Builder

end Collate
