import Collate.Plan
import Collate.Proofs.StableSort
import Mathlib.Data.List.Induction
import Mathlib.Data.List.Nodup
import Mathlib.Order.Bounds.Basic

/-!
# Compilation

Fields compile to a plan exactly if the depths at which they group leave no gap, and where there is
one, the error names the greatest depth and the least missing one.  Without a gap there are no more
depths than fields.  The sort keys of a plan come about by inserting them one after the other; since
they are sorted all along, there is a place before which no key has a greater order and behind which
all have, and a key inserted there comes behind those of equal order.  So they are sorted stably.
-/

namespace Collate

namespace Field

/-- The depths at which some field groups. -/
def depths (fields : List Field) : Set ℕ :=
  {depth | ∃ f ∈ fields, ∃ declared, f.group = some declared ∧ declared.toNat = depth}

/-- The depths gathered from the fields are those at which fields group. -/
theorem mem_groupDepths {fields : List Field} {depth : ℕ} :
  depth ∈ groupDepths fields ↔ depth ∈ depths fields
  := by
  simp [groupDepths, depths]

end Field

namespace SortKey

/-- The sort keys that fields declare, in field order. -/
def declared (fields : List Field) : List SortKey :=
  fields.zipIdx.filterMap fun entry =>
    entry.1.sort.map fun s => ⟨entry.2, s.order, s.direction⟩

/-- The sort keys declared are those of the fields that sort. -/
theorem mem_declared {fields : List Field} {s : SortKey} :
  s ∈ declared fields
    ↔ ∃ f, fields[s.field]? = some f ∧ f.sort = some ⟨s.order, s.direction⟩
  := by
  obtain ⟨place, order, direction⟩ := s
  simp only [declared, List.mem_filterMap, Prod.exists, List.mem_zipIdx_iff_getElem?,
    Option.map_eq_some_iff, mk.injEq]
  constructor
  · rintro ⟨f, _, hf, ⟨_, _⟩, hsort, rfl, rfl, rfl⟩
    use f, hf, hsort
  · rintro ⟨f, hf, hsort⟩
    use f, place, hf, ⟨order, direction⟩, hsort

/-- A field more declares one sort key more, if it sorts. -/
theorem declared_concat (fields : List Field) (f : Field) :
  declared (fields ++ [f])
    = declared fields
      ++ (f.sort.map fun s => ⟨fields.length, s.order, s.direction⟩ : Option SortKey).toList
  := by
  rw [declared, List.zipIdx_append, List.filterMap_append, declared]
  cases hsort : f.sort with
  | none => simp [hsort]
  | some s => simp [hsort]

/-- One key decides before another: it has a lesser order, or the same and an earlier field. -/
def Precedes (s t : SortKey) : Prop :=
  s.order < t.order ∨ s.order = t.order ∧ s.field < t.field

/-- A sort key precedes those of the same or a higher order alone. -/
theorem Precedes.order_le {s t : SortKey} (h : s.Precedes t) :
  s.order ≤ t.order
  := by
  obtain h | ⟨h, -⟩ := h
  · apply UInt32.le_of_lt h
  · rw [h]
    apply UInt32.le_refl

/-! ### Inserting sort keys -/

section

variable {s : SortKey} {keys : List SortKey}

/-- Inserting a sort key puts it behind all keys of its order or a lower one. -/
theorem insert_eq_insertBehind (s : SortKey) (keys : List SortKey) :
  s.insert keys = insertBehind (fun s t => s.order ≤ t.order) s keys
  := by
  induction keys with
  | nil => rfl
  | cons t keys ih =>
      rw [insertBehind, ← ih, insert, insert]
      by_cases h : t.order ≤ s.order
      · simp [h]
      · simp [h]

/-- In a list parted by the order of a key, the key is inserted at the place where it is parted. -/
theorem insert_eq_of_parted {place : ℕ} (before : ∀ t ∈ keys.take place, t.order ≤ s.order)
    (behind : ∀ t ∈ keys.drop place, ¬ t.order ≤ s.order) :
  s.insert keys = keys.take place ++ s :: keys.drop place
  := by
  rw [insert_eq_insertBehind]
  conv_lhs => rw [← List.take_append_drop place keys]
  rw [insertBehind_append_of_le _ (by simpa using before),
    insertBehind_of_not_le (by simpa using behind)]

/-- A sorted list is parted by the order of any key. -/
theorem exists_parted (sorted : keys.Pairwise Precedes) (s : SortKey) :
  ∃ place : ℕ, (∀ t ∈ keys.take place, t.order ≤ s.order)
    ∧ ∀ t ∈ keys.drop place, ¬ t.order ≤ s.order
  := by
  induction keys with
  | nil => simp
  | cons u keys ih =>
      obtain ⟨hu, hkeys⟩ := List.pairwise_cons.mp sorted
      by_cases hus : u.order ≤ s.order
      · obtain ⟨place, before, behind⟩ := ih hkeys
        use place + 1
        rw [List.take_succ_cons, List.drop_succ_cons]
        use List.forall_mem_cons.mpr ⟨hus, before⟩
      · use 0
        rw [List.take_zero, List.drop_zero]
        use fun _ h => absurd h List.not_mem_nil
        intro t ht hts
        obtain rfl | ht := List.mem_cons.mp ht
        · apply hus hts
        · apply hus (UInt32.le_trans (hu t ht).order_le hts)

/-- The key of a later field is inserted in such a way that the keys remain sorted. -/
theorem pairwise_insert (sorted : keys.Pairwise Precedes) (later : ∀ t ∈ keys, t.field < s.field) :
  (s.insert keys).Pairwise Precedes
  := by
  obtain ⟨place, before, behind⟩ := exists_parted sorted s
  have hbefore : ∀ t ∈ keys.take place, t.Precedes s := by
    intro t ht
    obtain hlt | heq := UInt32.lt_or_eq_of_le (before t ht)
    · left
      apply hlt
    · right
      use heq
      apply later t (List.mem_of_mem_take ht)
  have hbehind : ∀ t ∈ keys.drop place, s.Precedes t := by
    intro t ht
    left
    apply UInt32.not_le.mp (behind t ht)
  rw [← List.take_append_drop place keys, List.pairwise_append] at sorted
  obtain ⟨htake, hdrop, hacross⟩ := sorted
  rw [insert_eq_of_parted before behind, List.pairwise_append, List.pairwise_cons]
  use htake, ⟨hbehind, hdrop⟩
  intro t ht u hu
  obtain rfl | hu := List.mem_cons.mp hu
  · apply hbefore t ht
  · apply hacross t ht u hu

end

end SortKey

namespace Plan

/-! ### The sort keys of a plan -/

/-- The key of one more field is inserted into those of the fields before it. -/
theorem sortKeys_concat (fields : List Field) (f : Field) :
  sortKeys (fields ++ [f])
    = match f.sort with
      | none => sortKeys fields
      | some s => SortKey.insert ⟨fields.length, s.order, s.direction⟩ (sortKeys fields)
  := by
  rw [sortKeys, List.zipIdx_append, List.foldl_append, Nat.zero_add]
  rfl

/-- The sort keys are those of the fields, sorted stably by their orders. -/
theorem sortKeys_eq_mergeSort (fields : List Field) :
  sortKeys fields = (SortKey.declared fields).mergeSort fun s t => s.order ≤ t.order
  := by
  have trans : ∀ s t u : SortKey, decide (s.order ≤ t.order) = true →
      decide (t.order ≤ u.order) = true → decide (s.order ≤ u.order) = true := by
    intro s t u
    simpa using UInt32.le_trans
  have total : ∀ s t : SortKey,
      (decide (s.order ≤ t.order) || decide (t.order ≤ s.order)) = true := by
    intro s t
    simpa using UInt32.le_total s.order t.order
  induction fields using List.reverseRecOn with
  | nil => simp [sortKeys, SortKey.declared]
  | append_singleton fields f ih =>
      rw [sortKeys_concat, SortKey.declared_concat]
      cases f.sort with
      | none => simpa using ih
      | some s =>
          rw [Option.map_some, Option.toList_some, mergeSort_concat trans total, ← ih]
          apply SortKey.insert_eq_insertBehind

example :
  let sorted (order : UInt32) : Field := .sortedBy (.named "") order .ascending
  (sortKeys [sorted 2, sorted 0, .named "", sorted 2, sorted 1]).map (·.field) = [1, 4, 0, 3]
  := by decide

/-- The sort keys of a plan are those that the fields declare. -/
theorem mem_sortKeys {fields : List Field} {s : SortKey} :
  s ∈ sortKeys fields
    ↔ ∃ f, fields[s.field]? = some f ∧ f.sort = some ⟨s.order, s.direction⟩
  := by
  rw [sortKeys_eq_mergeSort, List.mem_mergeSort]
  apply SortKey.mem_declared

/-- Each sort key has a lesser order than the next one, or the same order and an earlier field. -/
theorem pairwise_sortKeys (fields : List Field) :
  (sortKeys fields).Pairwise SortKey.Precedes
  := by
  induction fields using List.reverseRecOn with
  | nil => apply List.Pairwise.nil
  | append_singleton fields f ih =>
      rw [sortKeys_concat]
      cases f.sort with
      | none => apply ih
      | some s =>
          apply SortKey.pairwise_insert ih
          intro t ht
          obtain ⟨_, hfield, -⟩ := mem_sortKeys.mp ht
          apply (List.getElem?_eq_some_iff.mp hfield).1

/-- No two sort keys are of one field. -/
theorem nodup_field_sortKeys (fields : List Field) :
  ((sortKeys fields).map (·.field)).Nodup
  := by
  have nodup : (sortKeys fields).Nodup := by
    apply (pairwise_sortKeys fields).imp
    rintro s _ h rfl
    obtain h | ⟨-, h⟩ := h
    · apply UInt32.lt_irrefl _ h
    · apply Nat.lt_irrefl _ h
  apply (List.nodup_map_iff_inj_on nodup).mpr
  intro s hs t ht hfield
  obtain ⟨f, hf, hsort⟩ := mem_sortKeys.mp hs
  obtain ⟨f', hf', hsort'⟩ := mem_sortKeys.mp ht
  rw [hfield, hf', Option.some.injEq] at hf
  rw [← hf, hsort', Option.some.injEq, SortSpec.mk.injEq] at hsort
  rw [SortKey.mk.injEq]
  use hfield, hsort.1.symm, hsort.2.symm

/-! ### Depths without a gap -/

/-- A list that holds the first numbers has at least as many elements. -/
theorem le_length_of_range_subset {n : ℕ} {ns : List ℕ} (h : List.range n ⊆ ns) :
  n ≤ ns.length
  := by
  simpa using (List.subperm_of_subset List.nodup_range h).length_le

/-- Some number up to the length of a list is missing from it. -/
theorem exists_le_length_notMem (ns : List ℕ) :
  ∃ n ≤ ns.length, n ∉ ns
  := by
  by_contra! all
  have hsubset : List.range (ns.length + 1) ⊆ ns := by
    intro n hn
    apply all n (Nat.le_of_lt_succ (List.mem_range.mp hn))
  have := le_length_of_range_subset hsubset
  omega

/-- The search for a gap finds the least number that is missing. -/
theorem isLeast_leastMissing (ns : List ℕ) :
  IsLeast {n | n ∉ ns} (leastMissing ns)
  := by
  rw [leastMissing]
  cases hfind : (List.range (ns.length + 1)).find? fun n => !ns.contains n with
  | none =>
      obtain ⟨n, hle, hn⟩ := exists_le_length_notMem ns
      have := List.find?_eq_none.mp hfind n (List.mem_range.mpr (Nat.lt_succ_of_le hle))
      simp [hn] at this
  | some n =>
      obtain ⟨hn, -, hless⟩ := List.find?_range_eq_some.mp hfind
      constructor
      · simpa using hn
      · intro m hm
        by_contra hlt
        have := hless m (Nat.lt_of_not_le hlt)
        simp at this hm
        contradiction

/-- The greatest depth is the last one exactly if none is missing before it. -/
theorem depths_eq_Iic_iff {fields : List Field} {k : ℕ} :
  Field.depths fields = Set.Iic k
    ↔ IsGreatest (Field.depths fields) k ∧ ¬ leastMissing (Field.groupDepths fields) < k
  := by
  obtain ⟨hmissing, hleast⟩ := isLeast_leastMissing (Field.groupDepths fields)
  rw [Set.mem_ofPred_eq, Field.mem_groupDepths] at hmissing
  constructor
  · intro h
    rw [h] at hmissing ⊢
    use isGreatest_Iic
    intro hlt
    apply hmissing hlt.le
  · rintro ⟨⟨hk, hgreatest⟩, hgap⟩
    apply Set.Subset.antisymm hgreatest
    intro n hn
    by_contra hnotMem
    have hle : leastMissing (Field.groupDepths fields) ≤ n := by
      apply hleast
      rwa [Set.mem_ofPred_eq, Field.mem_groupDepths]
    apply hmissing
    rwa [Nat.le_antisymm (hle.trans hn) (Nat.le_of_not_lt hgap)]

/-- Where no depth is missing there are no more depths than fields. -/
theorem lt_length_of_depths_eq_Iic {fields : List Field} {k : ℕ}
    (h : Field.depths fields = Set.Iic k) :
  k < fields.length
  := by
  have hsubset : List.range (k + 1) ⊆ Field.groupDepths fields := by
    intro n hn
    rw [Field.mem_groupDepths, h]
    apply Nat.le_of_lt_succ (List.mem_range.mp hn)
  calc k + 1 ≤ (Field.groupDepths fields).length := le_length_of_range_subset hsubset
    _ ≤ fields.length := List.length_filterMap_le _ fields

/-- Fields without groups, with groups at each depth down to the deepest, or with a gap. -/
theorem compile_cases (fields : List Field) (showDetail : Bool) :
  (Field.depths fields = ∅
      ∧ compile fields showDetail
        = .ok ⟨fields.length, none, depthShown none showDetail, sortKeys fields⟩)
    ∨ (∃ k, Field.depths fields = Set.Iic k
      ∧ compile fields showDetail
        = .ok ⟨fields.length, some k, depthShown (some k) showDetail, sortKeys fields⟩)
    ∨ ∃ deepest missing, IsGreatest (Field.depths fields) deepest
      ∧ IsLeast {depth | depth ∉ Field.depths fields} missing
      ∧ missing < deepest
      ∧ compile fields showDetail = .error (.invalidConfig (.depthGap deepest missing))
  := by
  rw [compile]
  cases hmax : (Field.groupDepths fields).max? with
  | none =>
      left
      constructor
      · rw [Set.eq_empty_iff_forall_notMem]
        intro depth h
        rw [← Field.mem_groupDepths, List.max?_eq_none_iff.mp hmax] at h
        apply List.not_mem_nil h
      · rfl
  | some deepest =>
      right
      have hgreatest : IsGreatest (Field.depths fields) deepest := by
        obtain ⟨hmem, hle⟩ := List.max?_eq_some_iff.mp hmax
        use Field.mem_groupDepths.mp hmem
        intro depth h
        apply hle depth (Field.mem_groupDepths.mpr h)
      by_cases hgap : leastMissing (Field.groupDepths fields) < deepest
      · right
        use deepest, leastMissing (Field.groupDepths fields), hgreatest, ?_, hgap, if_pos hgap
        simpa only [Field.mem_groupDepths] using isLeast_leastMissing (Field.groupDepths fields)
      · left
        use deepest, depths_eq_Iic_iff.mpr ⟨hgreatest, hgap⟩, if_neg hgap

/-- The message of a gap names the deepest depth and the one that is missing. -/
theorem message_depthGap (deepest missing : ℕ) :
  (Error.invalidConfig (.depthGap deepest missing)).message
    = "Invalid configuration: fields group at depth " ++ shownNat deepest
      ++ " but no field groups at depth " ++ shownNat missing
  := by
  have joined : "Invalid configuration: fields group at depth "
      = "Invalid configuration: " ++ "fields group at depth " := by
    simp only [String.reduceAppend]
  calc (Error.invalidConfig (.depthGap deepest missing)).message
      = "Invalid configuration: " ++ ("fields group at depth " ++ shownNat deepest
          ++ " but no field groups at depth " ++ shownNat missing) := rfl
    _ = _ := by
      rw [joined]
      simp only [String.append_assoc]

section

variable {fields : List Field} {showDetail : Bool}

/-- Fields compile exactly when the depths at which they group leave no gap. -/
theorem exists_compile_iff :
  (∃ plan, compile fields showDetail = .ok plan)
    ↔ Field.depths fields = ∅ ∨ ∃ k, Field.depths fields = Set.Iic k
  := by
  obtain ⟨hempty, hcompile⟩ | ⟨k, hk, hcompile⟩
      | ⟨deepest, missing, hdeepest, hmissing, hlt, hcompile⟩ :=
    compile_cases fields showDetail
  · exact iff_of_true ⟨_, hcompile⟩ (.inl hempty)
  · exact iff_of_true ⟨_, hcompile⟩ (.inr ⟨k, hk⟩)
  · apply iff_of_false
    · rintro ⟨plan, h⟩
      rw [hcompile] at h
      contradiction
    · rintro (hempty | ⟨k, hk⟩)
      · rw [hempty] at hdeepest
        exact hdeepest.1.elim
      · rw [hk] at hdeepest hmissing
        apply hmissing.1
        apply hlt.le.trans hdeepest.1

/-- Fields that do not compile leave a gap, and the error names the deepest depth and the least that
is missing. -/
theorem exists_gap_of_compile {fault : Error} (h : compile fields showDetail = .error fault) :
  ∃ deepest missing, IsGreatest (Field.depths fields) deepest
    ∧ IsLeast {depth | depth ∉ Field.depths fields} missing
    ∧ missing < deepest
    ∧ fault = .invalidConfig (.depthGap deepest missing)
  := by
  obtain ⟨-, hcompile⟩ | ⟨_, -, hcompile⟩ | ⟨deepest, missing, hdeepest, hmissing, hlt, hcompile⟩ :=
    compile_cases fields showDetail
  · rw [hcompile] at h
    contradiction
  · rw [hcompile] at h
    contradiction
  · rw [hcompile, Except.error.injEq] at h
    exact ⟨deepest, missing, hdeepest, hmissing, hlt, h.symm⟩

variable {plan : Plan}

/-- The plan that fields without a gap compile to. -/
theorem of_compile (h : compile fields showDetail = .ok plan) :
  (Field.depths fields = ∅ ∧ plan.maxGroupDepth = none
      ∨ ∃ k, Field.depths fields = Set.Iic k ∧ plan.maxGroupDepth = some k)
    ∧ plan = ⟨fields.length, plan.maxGroupDepth, depthShown plan.maxGroupDepth showDetail,
        sortKeys fields⟩
  := by
  obtain ⟨hempty, hcompile⟩ | ⟨k, hk, hcompile⟩ | ⟨_, _, -, -, -, hcompile⟩ :=
    compile_cases fields showDetail
  · rw [hcompile, Except.ok.injEq] at h
    rw [← h]
    use Or.inl ⟨hempty, rfl⟩
  · rw [hcompile, Except.ok.injEq] at h
    rw [← h]
    use Or.inr ⟨k, hk, rfl⟩
  · rw [hcompile] at h
    contradiction

/-- A plan is without groups exactly when no field groups. -/
theorem maxGroupDepth_eq_none_iff (h : compile fields showDetail = .ok plan) :
  plan.maxGroupDepth = none ↔ Field.depths fields = ∅
  := by
  obtain ⟨⟨hempty, hnone⟩ | ⟨k, hk, hsome⟩, -⟩ := of_compile h
  · exact iff_of_true hnone hempty
  · rw [hk, hsome]
    exact iff_of_false (by simp) Set.nonempty_Iic.ne_empty

/-- The greatest group depth of a plan is that of the fields, which group at all depths up to it. -/
theorem maxGroupDepth_eq_some_iff (h : compile fields showDetail = .ok plan) {k : ℕ} :
  plan.maxGroupDepth = some k ↔ Field.depths fields = Set.Iic k
  := by
  obtain ⟨⟨hempty, hnone⟩ | ⟨k', hk', hsome⟩, -⟩ := of_compile h
  · rw [hempty, hnone]
    exact iff_of_false (by simp) Set.nonempty_Iic.ne_empty.symm
  · rw [hk', hsome, Option.some.injEq, Set.Iic_inj]

end

/-- Fields compile exactly if they group at no depth or at each of the depths down to some `k`, and
there are more than `k` of them.  Otherwise the error names the greatest depth and the least
missing one, which comes before it.  A plan has one sort key for each sorted field, sorted by their
orders, and by field where these are equal. -/
theorem compile_ok_iff_gapless (fields : List Field) (showDetail : Bool) :
  ((∃ plan, compile fields showDetail = .ok plan)
      ↔ Field.depths fields = ∅ ∨ ∃ k, Field.depths fields = Set.Iic k)
    ∧ (∀ fault, compile fields showDetail = .error fault →
      ∃ deepest missing, IsGreatest (Field.depths fields) deepest
        ∧ IsLeast {depth | depth ∉ Field.depths fields} missing
        ∧ missing < deepest
        ∧ fault = .invalidConfig (.depthGap deepest missing)
        ∧ fault.message = "Invalid configuration: fields group at depth " ++ shownNat deepest
          ++ " but no field groups at depth " ++ shownNat missing)
    ∧ ∀ plan, compile fields showDetail = .ok plan →
      plan.fieldCount = fields.length
        ∧ (plan.maxGroupDepth = none ↔ Field.depths fields = ∅)
        ∧ (∀ k, plan.maxGroupDepth = some k ↔ Field.depths fields = Set.Iic k)
        ∧ (∀ k, plan.maxGroupDepth = some k →
          k < fields.length
            ∧ plan.maxDepth = some (if showDetail then k + 1 else k)
            ∧ (fields.length < UInt64.size → (UInt64.ofNat k + 1).toNat = k + 1))
        ∧ plan.sorts = (SortKey.declared fields).mergeSort (fun s t => s.order ≤ t.order)
        ∧ plan.sorts.Pairwise SortKey.Precedes
        ∧ (plan.sorts.map (·.field)).Nodup
        ∧ ∀ s, s ∈ plan.sorts
          ↔ ∃ f, fields[s.field]? = some f ∧ f.sort = some ⟨s.order, s.direction⟩
  := by
  refine ⟨exists_compile_iff, ?refused, ?compiled⟩
  case refused =>
    intro fault h
    obtain ⟨deepest, missing, hdeepest, hmissing, hlt, rfl⟩ := exists_gap_of_compile h
    exact ⟨deepest, missing, hdeepest, hmissing, hlt, rfl, message_depthGap deepest missing⟩
  case compiled =>
    intro plan h
    obtain ⟨-, hplan⟩ := of_compile h
    have hcount : plan.fieldCount = fields.length := by rw [hplan]
    have hsorts : plan.sorts = sortKeys fields := by rw [hplan]
    rw [hsorts]
    refine ⟨hcount, maxGroupDepth_eq_none_iff h, fun k => maxGroupDepth_eq_some_iff h, ?deepest,
      sortKeys_eq_mergeSort fields, pairwise_sortKeys fields, nodup_field_sortKeys fields,
      fun s => mem_sortKeys⟩
    case deepest =>
      intro k hk
      have hlt := lt_length_of_depths_eq_Iic ((maxGroupDepth_eq_some_iff h).mp hk)
      refine ⟨hlt, ?_, ?_⟩
      · rw [hplan, hk]
        cases showDetail <;> rfl
      · intro hlength
        rw [UInt64.size] at hlength
        rw [UInt64.toNat_add, UInt64.toNat_ofNat', UInt64.toNat_one]
        omega

example :
  compile [.groupedAt (.named "") 0xffffffffffffffff, .groupedAt (.named "") 0] true
    = .error (.invalidConfig (.depthGap 0xffffffffffffffff 1))
  := by rfl

end Plan

end Collate
