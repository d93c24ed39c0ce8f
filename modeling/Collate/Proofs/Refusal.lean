import Collate.Proofs.Pairs
import Collate.Proofs.Producer.History

/-!
# A refused payload leaves no trace

At every moment the retained rows are those of the published snapshot, in the same order.  A merge
that fails goes back to the rows of the snapshot, and so to where it started, at whatever row it
failed.  All that happens afterwards is what would have happened without the refused payload.
-/

namespace Collate

namespace Table

/-- The retained rows and the number of merged rows are those of the snapshot. -/
structure Coherent (t : Table) : Prop where
  retained : t.retained = t.snapshot.payload
  total : t.total = t.snapshot.total

theorem coherent_ofPlan (plan : Plan) (maxResults : Option Sizes) (storeSize : Sizes) :
  (ofPlan plan maxResults storeSize).Coherent
  := ⟨rfl, rfl⟩

theorem Emptied.coherent {t : Table} (emptied : t.Emptied) :
  t.Coherent
  := by
  constructor
  · rw [emptied.retained, emptied.snapshot]
    rfl
  · rw [emptied.total, emptied.snapshot]
    rfl

theorem Coherent.merge {t : Table} (coherent : t.Coherent) (payload : Payload) :
  (t.merge payload).1.Coherent
  := by
  obtain ⟨fault, hmerge⟩ | ⟨rows, m, publishes⟩ := t.merge_cases payload
  · rw [hmerge]
    exact ⟨rfl, coherent.total⟩
  · rw [publishes.merged]
    exact ⟨rfl, rfl⟩

theorem Path.coherent {plan : Plan} {maxResults : Option Sizes} {storeSize : Sizes}
    {events : List Event} {t : Table} (path : Path (ofPlan plan maxResults storeSize) events t) :
  t.Coherent
  := by
  apply path.invariant (coherent_ofPlan plan maxResults storeSize)
  case emptied =>
    intro t emptied
    apply emptied.coherent
  case queue =>
    intro t pending gate coherent
    exact ⟨coherent.retained, coherent.total⟩
  case merge =>
    intro t payload _ coherent
    apply coherent.merge

/-- A merge that fails ends where it started.  The rows of the snapshot, to which the merge goes
back, are those that were retained. -/
theorem Coherent.merge_of_fault {t : Table} {payload : Payload} {fault : Error}
    (coherent : t.Coherent) (h : (t.merge payload).2 = some fault) :
  t.merge payload = (t, some fault)
  := by
  obtain ⟨fault', hmerge⟩ | ⟨rows, m, publishes⟩ := t.merge_cases payload
  · rw [hmerge] at h ⊢
    rw [← coherent.retained, ← h]
  · rw [publishes.merged] at h
    contradiction

/-- Whoever holds the gate goes on after a refused payload as if it had not waited. -/
theorem Coherent.proceed_of_fault {t : Table} {payload : Payload} {fault : Error}
    (coherent : t.Coherent) (h : (t.merge payload).2 = some fault) (uncleared : t.cleared = false)
    (pending : List Payload) :
  (t.withQueue (payload :: pending) t.gate).proceed
    = (t.withQueue pending t.gate, .merged, some fault)
  := by
  have hmerge : (t.withQueue pending t.gate).merge payload
      = (t.withQueue pending t.gate, some fault) := by
    rw [merge_withQueue, coherent.merge_of_fault h]
  apply (proceed_of_cons (t := t.withQueue (payload :: pending) t.gate) rfl uncleared).trans
  change (((t.withQueue pending t.gate).merge payload).1, _,
    ((t.withQueue pending t.gate).merge payload).2) = _
  rw [hmerge]

/-- At every moment the retained rows are those of the snapshot.  So a merge that fails changes
nothing, whoever holds the gate goes on as if the refused payload had not waited, and whatever is
called after its producer has returned comes to the same as if it had not come. -/
theorem refusal_leaves_no_trace {plan : Plan} {maxResults : Option Sizes} {storeSize : Sizes}
    {events : List Event} {t : Table} (path : Path (ofPlan plan maxResults storeSize) events t) :
  t.retained = t.snapshot.payload
    ∧ t.total = t.snapshot.total
    ∧ ∀ payload fault, (t.merge payload).2 = some fault →
      t.merge payload = (t, some fault)
      ∧ (t.cleared = false → ∀ pending,
        (t.withQueue (payload :: pending) t.gate).proceed
          = (t.withQueue pending t.gate, .merged, some fault))
      ∧ (t.gate.held = false → t.pending = [] → ∀ polls, Poll.Quiet polls → ∀ rest,
        let step := t.run (.add payload polls rest)
        let untried := (Poll.next rest polls).raised || t.cleared
        step.after = t
          ∧ step.fault = (if untried then none else some fault)
          ∧ ∀ calls, step.after.runAll calls = t.runAll calls)
  := by
  have coherent := path.coherent
  use coherent.retained, coherent.total
  intro payload fault h
  have hmerge := coherent.merge_of_fault h
  use hmerge, coherent.proceed_of_fault h
  intro free hpending polls quiet rest step untried
  have hstep : (step.after, step.fault) = (t, if untried then none else some fault) := by
    calc (step.after, step.fault)
        = if untried then (t, none) else t.merge payload :=
          run_quiet free hpending quiet payload rest
      _ = (t, if untried then none else some fault) := by
          rw [hmerge]
          split <;> rfl
  obtain ⟨hafter, hfault⟩ := Prod.mk.inj hstep
  use hafter, hfault
  intro calls
  rw [hafter]

/-- A table that has cut a row away, after a payload of which the second row was refused. -/
def afterRefusal : List Call :=
  let row (n : UInt64) (v : Val) : Row := ⟨.group ⟨[v]⟩, [some (.count n)]⟩
  let quiet : List Poll := [.mk [] false, .mk [] false, .mk [] false]
  [.add (.ofRows [row 1 (.boolean true), row 2 (.boolean false)]) quiet false,
    .add [(.detail .root, row 3 .null), (.group ⟨[.null, .null]⟩, row 4 .null)] quiet false]

theorem refusal_leaves_no_trace_afterRefusal :
  let fresh := ofPlan ⟨1, some 0, some 0, []⟩ none ⟨[1]⟩
  let t := (fresh.runAll afterRefusal).1
  let bad : Payload := .ofRows [⟨.group ⟨[.boolean true]⟩, [some (.min .null)]⟩]
  t.snapshot.total = 2
    ∧ t.retained = t.snapshot.payload
    ∧ (t.run (.add bad [] false)).fault = some (.incompatible 0)
    ∧ ∀ calls, (t.run (.add bad [] false)).after.runAll calls = t.runAll calls
  := by
  intro fresh t bad
  have path : Path fresh (events (fresh.traceAll afterRefusal)) t :=
    path_trace.2.1 fresh afterRefusal
  have refused : (t.merge bad).2 = some (.incompatible 0) := by decide +kernel
  have free : t.gate.held = false := by decide +kernel
  have waiting : t.pending = [] := by decide +kernel
  have uncleared : t.cleared = false := by decide +kernel
  obtain ⟨hretained, -, hrefused⟩ := refusal_leaves_no_trace path
  obtain ⟨-, -, hquiet⟩ := hrefused bad _ refused
  obtain ⟨-, hfault, hlater⟩ := hquiet free waiting [] (by simp [Poll.Quiet]) false
  use by decide +kernel, hretained, ?fault, hlater
  case fault =>
    rw [hfault, uncleared]
    rfl

end Table

end Collate
