import Collate.Proofs.Feed

/-!
# Rows queued under any key

A payload may queue a row under a key that is not the row's own.  The row is then combined with
others under the one key and stands beneath its parent by the other.  What a merge comes to is all
the same one of two things: it publishes no more rows than went in, each with one slot for each
field, or it goes back to the rows of the last snapshot.
-/

namespace Collate

namespace Partition

/-! ### Emitting pairs -/

/-- No group is emitted at more than one depth. -/
theorem perm_flatMap_atDepth (p : Partition) (n : ℕ) :
  ((List.range n).flatMap p.atDepth).Perm
    ((p.groups.filter fun entry => 1 ≤ entry.1.length ∧ entry.1.length ≤ n).map (·.2))
  := by
  induction n with
  | zero =>
      rw [List.range_zero, List.flatMap_nil, List.filter_eq_nil_iff.mpr]
      · apply List.Perm.refl
      · intro entry _
        simp only [decide_eq_true_eq]
        omega
  | succ n ih =>
      let shallow : Key × Row → Bool := fun entry => entry.1.length ≤ n
      have hparts := List.filter_append_perm shallow
        (p.groups.filter fun entry => 1 ≤ entry.1.length ∧ entry.1.length ≤ n + 1)
      simp only [List.filter_filter] at hparts
      rw [List.range_succ, List.flatMap_append, List.flatMap_singleton, atDepth]
      apply List.Perm.trans _ (hparts.map _)
      rw [List.map_append]
      apply List.Perm.append
      · apply ih.trans
        apply List.Perm.of_eq
        congr 1
        apply List.filter_congr
        grind
      · apply List.Perm.of_eq
        congr 1
        apply List.filter_congr
        grind

/-- No more is emitted than was read. -/
theorem emit_subperm (p : Partition) :
  (p.emit.map (·.2)).Subperm (p.details.map (·.2) ++ p.groups.map (·.2))
  := by
  rw [emit, List.map_append, Payload.map_snd_ofRows]
  apply (List.subperm_append_left _).mpr
  apply (p.perm_flatMap_atDepth _).subperm_right.mpr
  apply (List.filter_sublist.map _).subperm

theorem length_emit_le (p : Partition) :
  p.emit.length ≤ p.details.length + p.groups.length
  := by
  have := p.emit_subperm.length_le
  simp only [List.length_append, List.length_map] at this
  apply this

end Partition

namespace Table

/-! ### What a merge comes to -/

/-- Reducing is reading the retained rows and then the payload. -/
theorem reduce_eq (plan : Plan) (retained payload : Payload) :
  reduce plan retained payload
    = match (Partition.empty plan).read (retained ++ payload) with
      | (_, some fault) => .error fault
      | (p, none) => .ok p.emit
  := by
  rcases h : (Partition.empty plan).read retained with ⟨p, _ | fault⟩
  · rw [Partition.read_append_of_none h]
    rcases h' : p.read payload with ⟨q, _ | fault⟩
    · simp only [reduce, h, h']
    · simp only [reduce, h, h']
  · simp only [reduce, h, Partition.read_append_of_fault h]

/-- Rows that were reduced are those of a partition that has read the retained rows and the
payload. -/
theorem exists_read_of_reduce {plan : Plan} {retained payload rows : Payload}
    (h : reduce plan retained payload = .ok rows) :
  ∃ p, (Partition.empty plan).read (retained ++ payload) = (p, none) ∧ rows = p.emit
  := by
  rw [reduce_eq] at h
  rcases hread : (Partition.empty plan).read (retained ++ payload) with ⟨p, _ | fault⟩
  · rw [hread, Except.ok.injEq] at h
    use p, rfl, h.symm
  · simp [hread] at h

/-- Reduced rows have one slot for each field, and there are no more of them than went in. -/
theorem reduce_ok {plan : Plan} {retained payload rows : Payload}
    (h : reduce plan retained payload = .ok rows) :
  (∀ row ∈ rows.map (·.2), plan.slotFault? row = none)
    ∧ rows.length ≤ retained.length + payload.length
  := by
  obtain ⟨p, hread, rfl⟩ := exists_read_of_reduce h
  constructor
  · have hplan : p.plan = plan := Partition.plan_of_read hread
    have hempty : (Partition.empty plan).Filled := by simp [Partition.Filled, Partition.empty]
    intro row hrow
    rw [← hplan]
    apply hempty.read hread
    apply p.emit_subperm.subset hrow
  · have hlength := Partition.length_read_payload_le hread
    simp only [Partition.empty, List.length_nil, List.length_append] at hlength
    have := p.length_emit_le
    omega

/-- A merge that publishes a snapshot of rows that were reduced. -/
structure Publishes (t : Table) (payload rows : Payload) (m : ChildMap) : Prop where
  reduced : reduce t.plan t.retained payload = .ok rows
  published : Published t.plan t.storeSize (rows.map (·.2)) m
  merged : t.merge payload
    = ({ t with
        retained := .ofRows m.rows
        snapshot := ⟨m, m.size, t.total + UInt64.ofNat payload.length⟩
        total := t.total + UInt64.ofNat payload.length }, none)

/-- A merge goes back to the rows of the last snapshot, or publishes a new one. -/
theorem merge_cases (t : Table) (payload : Payload) :
  (∃ fault, t.merge payload = ({ t with retained := t.snapshot.payload }, some fault))
    ∨ ∃ rows m, t.Publishes payload rows m
  := by
  cases hreduce : reduce t.plan t.retained payload with
  | error fault =>
      left
      use fault
      apply merge_of_error (fold_of_error hreduce _ _)
  | ok rows =>
      obtain ⟨m, hfold, hpublished⟩ := fold_of_ok hreduce t.storeSize _ (reduce_ok hreduce).1
      right
      exact ⟨rows, m, hreduce, hpublished, merge_of_ok hfold⟩

end Table

end Collate
