import Collate.Proofs.Builder
import Collate.Proofs.StableSort

/-!
# In which order children stand

Rows are sorted only before they are cut or published, and only if they were marked as unsorted.  A
read that comes to its end marks them; a read that is refused does not, although the rows before the
refused one were taken.  So children stand in the order of the plan, and in the order of arrival
where they compare equal, except for those that came by refused reads and were never marked: these
stand behind all others, in the order of arrival.
-/

namespace Collate

/-- The rows of a payload before the first that has not one slot for each field. -/
def Plan.taken (plan : Plan) (payload : Payload) : List Row :=
  (payload.map (·.2)).takeWhile fun row => (plan.slotFault? row).isNone

/-- Whether each row of a payload has one slot for each field. -/
def Plan.fits (plan : Plan) (payload : Payload) : Bool :=
  payload.all fun entry => (plan.slotFault? entry.2).isNone

namespace Builder

/-- Rows up to the first that has not one slot for each field are taken, and are marked as unsorted
if there is no such row. -/
theorem read_eq_taken (b : Builder) (payload : Payload) :
  (b.read payload).1
      = ⟨b.plan, b.rowsByParent.pushAll (b.plan.taken payload), !b.plan.fits payload && b.sorted⟩
    ∧ ((b.read payload).2 = none ↔ b.plan.fits payload = true)
  := by
  induction payload generalizing b with
  | nil => exact ⟨rfl, by simp [read, Plan.fits]⟩
  | cons entry payload ih =>
      obtain ⟨key, row⟩ := entry
      rw [read]
      cases hslots : b.plan.slotFault? row with
      | some fault => simp [Plan.taken, Plan.fits, hslots, ChildMap.pushAll]
      | none =>
          obtain ⟨hread, hfault⟩ := ih { b with rowsByParent := b.rowsByParent.push row }
          rw [hread, hfault]
          simp [Plan.taken, Plan.fits, hslots, ChildMap.pushAll]

/-! ### What is done with a builder -/

/-- A read, or a trim. -/
inductive Op where
  | read (payload : Payload)
  | trim (sizes : Sizes)

def perform (b : Builder) : Op → Builder
  | .read payload => (b.read payload).1
  | .trim sizes => b.trim sizes

/-- What a builder comes to by some reads and trims, whether or not reads are refused. -/
def performAll (b : Builder) (ops : List Op) : Builder :=
  ops.foldl perform b

/-- What reads and trims have done, apart from the rows that were cut away. -/
structure Account where
  /-- Whether a read came to its end since the rows were last sorted. -/
  marked : Bool
  /-- The rows that were taken, in the order of arrival. -/
  arrived : List Row
  /-- The rows that were taken by refused reads and have not been marked. -/
  stray : List Row

def Account.note (plan : Plan) (a : Account) : Op → Account
  | .read payload =>
    let arrived := a.arrived ++ plan.taken payload
    if plan.fits payload then ⟨true, arrived, []⟩
    else if a.marked then { a with arrived }
    else { a with arrived, stray := a.stray ++ plan.taken payload }
  | .trim _ => { a with marked := false }

/-- The account of some reads and trims, the first of them on an empty builder. -/
def account (plan : Plan) (ops : List Op) : Account :=
  ops.foldl (Account.note plan) ⟨false, [], []⟩

/-- The children of a key, once sorted: rows that are kept in the order of the plan, and behind them
those that came late, as they came. -/
def SortedBut (plan : Plan) (a : Account) (b : Builder) (parent : Key) (kept late : List Row) :
    Prop :=
  (kept ++ late).Sublist (rowsUnder parent a.arrived)
    ∧ late.Sublist (rowsUnder parent a.stray)
    ∧ b.sort.rowsByParent.children parent = kept.mergeSort plan.mayPrecede ++ late

/-- How a builder stands to the account of what was done with it. -/
structure Ordered (plan : Plan) (a : Account) (b : Builder) : Prop where
  plan_eq : b.plan = plan
  sorted_eq : b.sorted = !a.marked
  stray_eq : a.marked = true → a.stray = []
  children : ∀ parent, ∃ kept late, SortedBut plan a b parent kept late

variable {plan : Plan} {a : Account} {b : Builder}

theorem ordered_empty (plan : Plan) :
  Ordered plan ⟨false, [], []⟩ (empty plan)
  where
  plan_eq := rfl
  sorted_eq := rfl
  stray_eq _ := rfl
  children parent := by
    use [], [], List.Sublist.refl _, List.Sublist.refl _
    rw [sort_of_sorted rfl, List.mergeSort_nil]
    rfl

/-- Whether or not the rows have been sorted, sorting them together with others comes to sorting all
that is there in the order of arrival. -/
theorem Ordered.mergeSort_children_append (ordered : Ordered plan a b) {parent : Key}
    {kept late : List Row} (h : SortedBut plan a b parent kept late) (rows : List Row) :
  (b.rowsByParent.children parent ++ rows).mergeSort plan.mayPrecede
    = (kept ++ late ++ rows).mergeSort plan.mayPrecede
  := by
  obtain ⟨-, hlate, hchildren⟩ := h
  have happend := mergeSort_append plan.mayPrecede_trans plan.mayPrecede_total
  have hsame : (b.rowsByParent.children parent).mergeSort plan.mayPrecede
      = (kept ++ late).mergeSort plan.mayPrecede := by
    cases hmarked : a.marked with
    | false =>
        rw [sort_of_sorted (by rw [ordered.sorted_eq, hmarked]; rfl)] at hchildren
        rw [hchildren, happend, happend, List.mergeSort_of_pairwise
          (List.pairwise_mergeSort plan.mayPrecede_trans plan.mayPrecede_total kept)]
    | true =>
        rw [children_sort (by rw [ordered.sorted_eq, hmarked]; rfl), ordered.plan_eq] at hchildren
        rw [ordered.stray_eq hmarked] at hlate
        obtain rfl := List.sublist_nil.mp hlate
        rw [hchildren, List.append_nil, List.append_nil]
  rw [happend, hsame, ← happend]

/-- Where rows are marked as unsorted, none of them strays any longer. -/
theorem Ordered.mark (ordered : Ordered plan a b) (rows : List Row) :
  Ordered plan ⟨true, a.arrived ++ rows, []⟩ ⟨b.plan, b.rowsByParent.pushAll rows, false⟩
  where
  plan_eq := ordered.plan_eq
  sorted_eq := rfl
  stray_eq _ := rfl
  children parent := by
    obtain ⟨kept, late, h⟩ := ordered.children parent
    use kept ++ late ++ rowsUnder parent rows, []
    refine ⟨?_, List.nil_sublist _, ?_⟩
    · rw [List.append_nil, rowsUnder_append]
      apply h.1.append (List.Sublist.refl _)
    · rw [children_sort rfl, ChildMap.children_pushAll, List.append_nil]
      simp only [ordered.plan_eq]
      apply ordered.mergeSort_children_append h

/-- Rows that come to sorted ones without being marked stand behind them. -/
theorem Ordered.stray (ordered : Ordered plan a b) (hmarked : a.marked = false) (rows : List Row) :
  Ordered plan { a with arrived := a.arrived ++ rows, stray := a.stray ++ rows }
    ⟨b.plan, b.rowsByParent.pushAll rows, b.sorted⟩
  where
  plan_eq := ordered.plan_eq
  sorted_eq := ordered.sorted_eq
  stray_eq h := by
    rw [hmarked] at h
    contradiction
  children parent := by
    have hsorted : b.sorted = true := by rw [ordered.sorted_eq, hmarked]; rfl
    obtain ⟨kept, late, harrived, hlate, hchildren⟩ := ordered.children parent
    rw [sort_of_sorted hsorted] at hchildren
    use kept, late ++ rowsUnder parent rows
    refine ⟨?_, ?_, ?_⟩
    · rw [← List.append_assoc, rowsUnder_append]
      apply harrived.append (List.Sublist.refl _)
    · rw [rowsUnder_append]
      apply hlate.append (List.Sublist.refl _)
    · have hsame := sort_of_sorted (b := ⟨b.plan, b.rowsByParent.pushAll rows, b.sorted⟩) hsorted
      rw [hsame, ChildMap.children_pushAll, hchildren,
        List.append_assoc]

/-- A trim cuts each list as it finds it sorted, or drops it. -/
theorem children_trim (b : Builder) (sizes : Sizes) (parent : Key) :
  (b.trim sizes).rowsByParent.children parent
      = sizes.cut parent.length (b.sort.rowsByParent.children parent)
    ∨ (b.trim sizes).rowsByParent.children parent = []
  := by
  by_cases reached : Reachable sizes b.sort.rowsByParent.children parent
  · left
    apply children_visit reached
  · right
    have hnone : (b.trim sizes).rowsByParent.find? parent = none := by
      rw [Option.eq_none_iff_forall_ne_some]
      intro rows hrows
      apply reached ((find?_visit sizes b.sort.rowsByParent).mp hrows).1
    rw [ChildMap.children, hnone]
    rfl

theorem exists_children_trim (b : Builder) (sizes : Sizes) (parent : Key) :
  ∃ n, (b.trim sizes).rowsByParent.children parent = (b.sort.rowsByParent.children parent).take n
  := by
  obtain hcut | hnil := b.children_trim sizes parent
  · exact ⟨_, hcut⟩
  · use 0, hnil

theorem Ordered.trim (ordered : Ordered plan a b) (sizes : Sizes) :
  Ordered plan { a with marked := false } (b.trim sizes)
  where
  plan_eq := by
    rw [← ordered.plan_eq, Builder.trim, sort]
    split
    · rfl
    · split <;> rfl
  sorted_eq := sorted_sort b
  stray_eq h := by contradiction
  children parent := by
    obtain ⟨kept, late, harrived, hlate, hchildren⟩ := ordered.children parent
    obtain ⟨n, htrim⟩ := b.exists_children_trim sizes parent
    rw [hchildren, List.take_append] at htrim
    obtain ⟨kept', hkept, hsort⟩ := exists_sublist_mergeSort plan.mayPrecede_trans
      plan.mayPrecede_total (List.take_sublist n (kept.mergeSort plan.mayPrecede))
    refine ⟨kept', late.take (n - (kept.mergeSort plan.mayPrecede).length), ?_, ?_, ?_⟩
    · apply (hkept.append (List.take_sublist _ late)).trans harrived
    · apply (List.take_sublist _ late).trans hlate
    · rw [sort_trim, htrim, hsort]

/-- Whatever is done next, the builder stands to its account as before. -/
theorem Ordered.perform (ordered : Ordered plan a b) (op : Op) :
  Ordered plan (a.note plan op) (b.perform op)
  := by
  cases op with
  | trim sizes => apply ordered.trim sizes
  | read payload =>
      rw [Builder.perform, (read_eq_taken b payload).1, ordered.plan_eq, Account.note]
      have hmark := ordered.mark (plan.taken payload)
      have hstray (h : a.marked = false) := ordered.stray h (plan.taken payload)
      rw [ordered.plan_eq] at hmark hstray
      cases hfits : plan.fits payload with
      | true => apply hmark
      | false =>
          obtain ⟨marked, arrived, stray⟩ := a
          cases marked with
          | true =>
              obtain rfl : stray = [] := ordered.stray_eq rfl
              rw [ordered.sorted_eq]
              apply hmark
          | false => apply hstray rfl

theorem Ordered.performAll (ordered : Ordered plan a b) (ops : List Op) :
  Ordered plan (ops.foldl (Account.note plan) a) (b.performAll ops)
  := by
  induction ops generalizing a b with
  | nil => apply ordered
  | cons op ops ih => apply ih (ordered.perform op)

/-- Nothing strays where each read that is refused is refused for its first row. -/
theorem stray_foldl_note (hstray : a.stray = []) {ops : List Op}
    (h : ∀ payload, .read payload ∈ ops → plan.fits payload = true ∨ plan.taken payload = []) :
  (ops.foldl (Account.note plan) a).stray = []
  := by
  induction ops generalizing a with
  | nil => apply hstray
  | cons op ops ih =>
      apply ih
      case h =>
        intro payload hmem
        apply h payload (List.mem_cons_of_mem _ hmem)
      case hstray =>
        cases op with
        | trim sizes => apply hstray
        | read payload =>
            rw [Account.note]
            obtain hfits | htaken := h payload List.mem_cons_self
            · simp [hfits]
            · simp only [htaken, hstray]
              split
              · rfl
              · split <;> rfl

/-- A sorted list with rows behind it is sorted exactly if it is what sorting all of them gives. -/
theorem pairwise_mergeSort_append_iff (plan : Plan) (kept late : List Row) :
  (kept.mergeSort plan.mayPrecede ++ late).Pairwise (fun x y => plan.mayPrecede x y = true)
    ↔ kept.mergeSort plan.mayPrecede ++ late = (kept ++ late).mergeSort plan.mayPrecede
  := by
  have hsorted := List.pairwise_mergeSort plan.mayPrecede_trans plan.mayPrecede_total
  have happend := mergeSort_append plan.mayPrecede_trans plan.mayPrecede_total
  constructor
  · intro h
    rw [happend, ← List.mergeSort_of_pairwise (hsorted kept), ← happend,
      List.mergeSort_of_pairwise (hsorted kept), List.mergeSort_of_pairwise h]
  · intro h
    rw [h]
    apply hsorted

/-- Whatever is read and trimmed, a read that is refused included, a snapshot has the children of
each key in the order of the plan, and in the order of arrival where they compare equal, except that
rows which came by refused reads and were not marked since may stand behind the others; a trim cuts
lists of the same form.  Such a list is sorted only where it is what a stable sort of all its rows
gives, and it is wherever no such row came.  None comes if each read that is refused is refused for
its first row. -/
theorem create_children_sorted (plan : Plan) (ops : List Op) :
  let b := (empty plan).performAll ops
  let a := account plan ops
  (∀ parent, ∃ kept late : List Row,
    (kept ++ late).Sublist (rowsUnder parent a.arrived)
      ∧ late.Sublist (rowsUnder parent a.stray)
      ∧ (∀ total, (b.create total).children parent = kept.mergeSort plan.mayPrecede ++ late)
      ∧ (∀ sizes, (b.trim sizes).rowsByParent.children parent
          = sizes.cut parent.length (kept.mergeSort plan.mayPrecede ++ late)
        ∨ (b.trim sizes).rowsByParent.children parent = [])
      ∧ ((kept.mergeSort plan.mayPrecede ++ late).Pairwise (fun x y => plan.mayPrecede x y = true)
        ↔ kept.mergeSort plan.mayPrecede ++ late = (kept ++ late).mergeSort plan.mayPrecede))
    ∧ (∀ parent, rowsUnder parent a.stray = [] → ∃ kept : List Row,
      kept.Sublist (rowsUnder parent a.arrived)
        ∧ (kept.mergeSort plan.mayPrecede).Pairwise (fun x y => plan.mayPrecede x y = true)
        ∧ (∀ total, (b.create total).children parent = kept.mergeSort plan.mayPrecede)
        ∧ ∀ sizes, (b.trim sizes).rowsByParent.children parent
            = sizes.cut parent.length (kept.mergeSort plan.mayPrecede)
          ∨ (b.trim sizes).rowsByParent.children parent = [])
    ∧ ((∀ payload, .read payload ∈ ops → plan.fits payload = true ∨ plan.taken payload = []) →
      a.stray = [])
  := by
  intro b a
  have ordered : Ordered plan a b := (ordered_empty plan).performAll ops
  have hcreate (parent : Key) (total : UInt64) :
      (b.create total).children parent = b.sort.rowsByParent.children parent := rfl
  refine ⟨?all, ?whole, stray_foldl_note rfl⟩
  case all =>
    intro parent
    obtain ⟨kept, late, harrived, hlate, hchildren⟩ := ordered.children parent
    use kept, late, harrived, hlate
    rw [← hchildren]
    use hcreate parent, fun sizes => b.children_trim sizes parent
    rw [hchildren]
    apply pairwise_mergeSort_append_iff
  case whole =>
    intro parent hstray
    obtain ⟨kept, late, harrived, hlate, hchildren⟩ := ordered.children parent
    rw [hstray] at hlate
    obtain rfl := List.sublist_nil.mp hlate
    rw [List.append_nil] at harrived hchildren
    use kept, harrived, List.pairwise_mergeSort plan.mayPrecede_trans plan.mayPrecede_total kept
    rw [← hchildren]
    use hcreate parent, fun sizes => b.children_trim sizes parent

/-- Top-level details with a count each. -/
def counted (counts : List UInt64) : List Row :=
  counts.map fun n => ⟨.detail .root, [some (.count n)]⟩

/-- A read that comes to its end after a trim, between two that are refused for their first row. -/
def interrupted : List Op :=
  let refused (counts : List UInt64) := Op.read (.ofRows (⟨.detail .root, []⟩ :: counted counts))
  [refused [0], .trim ⟨[2]⟩, .read (.ofRows (counted [4, 2, 3])), refused [1]]

theorem create_children_sorted_interrupted :
  let plan : Plan := ⟨1, none, some 0, [⟨0, 0, .ascending⟩]⟩
  let b := (empty plan).performAll interrupted
  ((b.create 3).children .root).Perm (counted [4, 2, 3])
    ∧ ((b.create 3).children .root).Pairwise (fun x y => plan.mayPrecede x y = true)
  := by
  intro plan b
  constructor
  · have hsorted : b.sorted = false := rfl
    have hchildren : b.rowsByParent.children .root = counted [4, 2, 3] := by decide +kernel
    change (b.sort.rowsByParent.children .root).Perm _
    rw [children_sort hsorted, hchildren]
    apply List.mergeSort_perm
  · have whole : ∀ payload, .read payload ∈ interrupted →
        plan.fits payload = true ∨ plan.taken payload = [] := by
      intro payload hmem
      simp only [interrupted, List.mem_cons, Op.read.injEq, reduceCtorEq, List.not_mem_nil,
        false_or, or_false] at hmem
      obtain rfl | rfl | rfl := hmem
      · right; decide +kernel
      · left; decide +kernel
      · right; decide +kernel
    obtain ⟨-, sorted, hstray⟩ := create_children_sorted plan interrupted
    obtain ⟨kept, -, hpairwise, hcreate, -⟩ := sorted .root (by rw [hstray whole]; rfl)
    rw [hcreate 3]
    apply hpairwise

/-- A read that is refused for its last row leaves the rows before it unsorted, and a trim cuts the
wrong one. -/
theorem refused_read_leaves_unsorted :
  let plan : Plan := ⟨1, none, some 0, [⟨0, 0, .ascending⟩]⟩
  let payload := Payload.ofRows (counted [2, 1] ++ [⟨.detail .root, []⟩])
  let b := (empty plan).performAll [.read payload]
  ((empty plan).read payload).2 = some (.invalidData (.slotCount 0 1))
    ∧ (b.create 2).children .root = counted [2, 1]
    ∧ ¬ ((b.create 2).children .root).Pairwise (fun x y => plan.mayPrecede x y = true)
    ∧ (b.trim ⟨[1]⟩).rowsByParent.children .root = counted [2]
  := by
  decide +kernel

end Builder

end Collate
