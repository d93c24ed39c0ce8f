import Collate.Proofs.Merge
import Collate.Proofs.Producer.Run

/-!
# Adding payloads one after the other

On an idle table a producer whose signal is never raised merges its payload and nothing else.
`Table.feed` adds payloads like this, each when the one before it has been merged or refused.
-/

namespace Collate

/-! ### Producers that nobody disturbs -/

/-- Polls at which no other producer arrives. -/
def Poll.Quiet (polls : List Poll) : Prop :=
  ∀ poll ∈ polls, poll.calls = []

theorem Poll.Quiet.next {polls : List Poll} (quiet : Quiet polls) (rest : Bool) :
  (next rest polls).calls = []
  := by
  cases polls with
  | nil => rfl
  | cons poll polls => apply quiet poll List.mem_cons_self

theorem Poll.Quiet.tail {polls : List Poll} (quiet : Quiet polls) :
  Quiet polls.tail
  := by
  intro poll hpoll
  apply quiet poll (List.mem_of_mem_tail hpoll)

namespace Table

/-- A table with other payloads waiting and another gate. -/
def withQueue (t : Table) (pending : List Payload) (gate : Gate) : Table :=
  { t with pending, gate }

/-- Tables that differ in their queue and gate are equal once both are set. -/
theorem eq_withQueue {t t' : Table} {pending : List Payload} {gate : Gate}
    (h : t = t'.withQueue pending gate) (pending' : List Payload) (gate' : Gate) :
  t.withQueue pending' gate' = t'.withQueue pending' gate'
  := by
  rw [h]
  rfl

/-- A merge neither looks at the payloads that wait nor at the gate. -/
theorem merge_withQueue (t : Table) (pending : List Payload) (gate : Gate) (payload : Payload) :
  (t.withQueue pending gate).merge payload
    = ((t.merge payload).1.withQueue pending gate, (t.merge payload).2)
  := by
  simp only [withQueue, merge]
  split <;> rfl

@[simp]
theorem plan_merge (t : Table) (payload : Payload) :
  (t.merge payload).1.plan = t.plan
  := by
  simp only [merge]
  split <;> rfl

@[simp]
theorem maxResults_merge (t : Table) (payload : Payload) :
  (t.merge payload).1.maxResults = t.maxResults
  := by
  simp only [merge]
  split <;> rfl

@[simp]
theorem storeSize_merge (t : Table) (payload : Payload) :
  (t.merge payload).1.storeSize = t.storeSize
  := by
  simp only [merge]
  split <;> rfl

@[simp]
theorem cleared_merge (t : Table) (payload : Payload) :
  (t.merge payload).1.cleared = t.cleared
  := by
  simp only [merge]
  split <;> rfl

/-- A table without pending payloads has none to drop when the signal is raised. -/
theorem heed_of_nil {t : Table} (h : t.pending = []) (raised : Bool) :
  t.heed raised = t
  := by
  cases raised with
  | false => rfl
  | true =>
      rw [heed, if_pos rfl, discard, ← h]

section

variable {t : Table} {polls : List Poll}

/-- Nobody disturbs a producer at a quiet poll. -/
theorem runAll_quiet (quiet : Poll.Quiet polls) (rest : Bool) :
  t.runAll (Poll.next rest polls).calls = (t, [])
  := by
  rw [quiet.next]
  rfl

/-- Without calls in between, a producer that released the gate of a table with nothing pending
leaves the table as it is. -/
theorem runPolls_released (h : t.pending = []) (quiet : Poll.Quiet polls) (rest : Bool) :
  (t.runPolls .released rest polls).1 = t ∧ (t.runPolls .released rest polls).2.1 = none
  := by
  have hresume : (t.runAll (Poll.next rest polls).calls).1.resume .released
      (Poll.next rest polls).raised = (t, none, none) := by
    rw [runAll_quiet quiet, resume, heed_of_nil h, if_pos]
    rw [h]
    rfl
  rw [runPolls_of_returns hresume]
  exact ⟨rfl, rfl⟩

/-- Without calls in between, a producer that has merged the last payload frees the gate and is
done. -/
theorem runPolls_merged (h : t.pending = []) (quiet : Poll.Quiet polls) (rest : Bool) :
  (t.runPolls .merged rest polls).1 = { t with gate := .free }
    ∧ (t.runPolls .merged rest polls).2.1 = none
  := by
  have hresume : (t.runAll (Poll.next rest polls).calls).1.resume .merged
      (Poll.next rest polls).raised = ({ t with gate := .free }, some .released, none) := by
    rw [runAll_quiet quiet, resume_merged, heed_of_nil h, proceed_of_nil h]
  have hreleased := runPolls_released (t := { t with gate := .free }) h quiet.tail rest
  rw [runPolls_of_proceeds hresume]
  exact ⟨hreleased.1, hreleased.2⟩

/-- A producer that nobody disturbs merges its payload, unless its signal was raised or the table
cleared when it came. -/
theorem run_quiet (free : t.gate.held = false) (h : t.pending = []) (quiet : Poll.Quiet polls)
    (payload : Payload) (rest : Bool) :
  let step := t.run (.add payload polls rest)
  (step.after, step.fault)
    = if (Poll.next rest polls).raised || t.cleared then (t, none) else t.merge payload
  := by
  have hqueue : t.withQueue [] .free = t := by
    rw [withQueue, ← h, ← Gate.eq_free_iff.mpr free]
  intro step
  change ((t.runPolls (.arriving payload) rest polls).1,
    (t.runPolls (.arriving payload) rest polls).2.1) = _
  split
  next hraised =>
    have hresume : (t.runAll (Poll.next rest polls).calls).1.resume (.arriving payload)
        (Poll.next rest polls).raised = (t, none, none) := by
      rw [runAll_quiet quiet, resume, if_pos hraised, discard, ← h]
    rw [runPolls_of_returns hresume]
  next hlowered =>
    have huncleared : t.cleared = false := by
      rw [Bool.or_eq_true, not_or] at hlowered
      simpa using hlowered.2
    have hproceed : (t.withQueue [payload] ⟨true⟩).proceed
        = ((t.merge payload).1.withQueue [] ⟨true⟩, .merged, (t.merge payload).2) := by
      apply (proceed_of_cons (t := t.withQueue [payload] ⟨true⟩) rfl huncleared).trans
      change (((t.withQueue [] ⟨true⟩).merge payload).1, _,
        ((t.withQueue [] ⟨true⟩).merge payload).2) = _
      rw [merge_withQueue]
    have hresume : (t.runAll (Poll.next rest polls).calls).1.resume (.arriving payload)
        (Poll.next rest polls).raised
          = ((t.merge payload).1.withQueue [] ⟨true⟩, some .merged, (t.merge payload).2) := by
      rw [runAll_quiet quiet, resume, if_neg hlowered, h]
      calc (t.withQueue [payload] t.gate).enter
          = ((t.withQueue [payload] ⟨true⟩).proceed.1,
              some (t.withQueue [payload] ⟨true⟩).proceed.2.1,
              (t.withQueue [payload] ⟨true⟩).proceed.2.2) := enter_of_free free
        _ = _ := by rw [hproceed]
    have hafter : (t.merge payload).1.withQueue [] .free = (t.merge payload).1 := by
      conv => rhs; rw [← hqueue, merge_withQueue]
    obtain ⟨htable, hfault⟩ := runPolls_merged (t := (t.merge payload).1.withQueue [] ⟨true⟩) rfl
      quiet.tail rest
    rw [runPolls_of_proceeds hresume, htable, hfault]
    apply Prod.ext hafter
    apply Option.or_none

end

/-! ### Idle tables -/

/-- Nobody works on the table, no payload waits, and it has not been cleared. -/
structure Idle (t : Table) : Prop where
  pending : t.pending = []
  gate : t.gate = .free
  cleared : t.cleared = false

/-- A table that was created is the empty table of a plan. -/
theorem exists_plan_of_create {fields : List Field} {showDetail : Bool} {maxResults : Option Sizes}
    {storeSize : Sizes} {fresh : Table}
    (created : create fields showDetail maxResults storeSize = .ok fresh) :
  ∃ plan, ofPlan plan maxResults storeSize = fresh
  := by
  rw [create] at created
  cases hcompile : Plan.compile fields showDetail with
  | error fault => simp [hcompile, bind, Except.bind] at created
  | ok plan =>
      use plan
      simpa [hcompile, bind, Except.bind, pure, Except.pure] using created

/-- A new table is idle. -/
theorem idle_ofPlan (plan : Plan) (maxResults : Option Sizes) (storeSize : Sizes) :
  (ofPlan plan maxResults storeSize).Idle
  := ⟨rfl, rfl, rfl⟩

/-- An idle table has an empty queue and a free gate. -/
theorem Idle.eq_withQueue {t : Table} (idle : t.Idle) :
  t = t.withQueue [] .free
  := by
  rw [withQueue, ← idle.pending, ← idle.gate]

/-- Merging a payload leaves an idle table idle. -/
theorem Idle.merge {t : Table} (idle : t.Idle) (payload : Payload) :
  (t.merge payload).1.Idle
  := by
  constructor
  · rw [pending_merge, idle.pending]
  · rw [gate_merge, idle.gate]
  · rw [cleared_merge, idle.cleared]

/-- On an idle table a payload is merged as soon as it is added. -/
theorem Idle.add_eq {t : Table} (idle : t.Idle) (payload : Payload) :
  t.add payload false = t.merge payload
  := by
  have free : t.gate.held = false := Gate.eq_free_iff.mp idle.gate
  have quiet : Poll.Quiet [] := by simp [Poll.Quiet]
  apply (run_quiet free idle.pending quiet payload false).trans
  rw [if_neg]
  simp [Poll.next, Poll.raised, idle.cleared]

/-! ### Feeding -/

/-- Adds payloads one after the other, under signals that are never raised: the table that
comes of it, and the error that each producer returned. -/
def feed (t : Table) : List Payload → Table × List (Option Error)
  | [] => (t, [])
  | payload :: payloads =>
    let (t, fault) := t.add payload false
    let (t, faults) := t.feed payloads
    (t, fault :: faults)

/-- An idle table is fed by merging the first payload and then feeding the others. -/
theorem Idle.feed_cons {t : Table} (idle : t.Idle) (payload : Payload) (payloads : List Payload) :
  t.feed (payload :: payloads)
    = (((t.merge payload).1.feed payloads).1,
        (t.merge payload).2 :: ((t.merge payload).1.feed payloads).2)
  := by
  rw [feed, idle.add_eq]

/-- Feeding payloads in two parts is feeding them at once. -/
theorem feed_append (t : Table) (payloads payloads' : List Payload) :
  t.feed (payloads ++ payloads')
    = (((t.feed payloads).1.feed payloads').1,
        (t.feed payloads).2 ++ ((t.feed payloads).1.feed payloads').2)
  := by
  induction payloads generalizing t with
  | nil => rfl
  | cons payload payloads ih =>
      simp only [List.cons_append, feed, ih]

/-- An idle table stays idle as it is fed. -/
theorem Idle.feed {t : Table} (idle : t.Idle) (payloads : List Payload) :
  (t.feed payloads).1.Idle
  := by
  induction payloads generalizing t with
  | nil => apply idle
  | cons payload payloads ih =>
      rw [idle.feed_cons]
      apply ih (idle.merge payload)

theorem Idle.plan_feed {t : Table} (idle : t.Idle) (payloads : List Payload) :
  (t.feed payloads).1.plan = t.plan
  := by
  induction payloads generalizing t with
  | nil => rfl
  | cons payload payloads ih =>
      rw [idle.feed_cons, ih (idle.merge payload), plan_merge]

theorem Idle.storeSize_feed {t : Table} (idle : t.Idle) (payloads : List Payload) :
  (t.feed payloads).1.storeSize = t.storeSize
  := by
  induction payloads generalizing t with
  | nil => rfl
  | cons payload payloads ih =>
      rw [idle.feed_cons, ih (idle.merge payload), storeSize_merge]

/-- What a producer comes back to: the error of its payload, and the snapshot. -/
structure Outcome where
  fault : Option Error
  snapshot : Snapshot

/-- What comes of payloads that are added one after the other. -/
def outcomes (t : Table) : List Payload → List Outcome
  | [] => []
  | payload :: payloads =>
    let (t, fault) := t.add payload false
    ⟨fault, t.snapshot⟩ :: t.outcomes payloads

/-- The first outcome of feeding payloads is that of merging the first one, and the others follow
from there. -/
theorem Idle.outcomes_cons {t : Table} (idle : t.Idle) (payload : Payload)
    (payloads : List Payload) :
  t.outcomes (payload :: payloads)
    = ⟨(t.merge payload).2, (t.merge payload).1.snapshot⟩ :: (t.merge payload).1.outcomes payloads
  := by
  rw [outcomes, idle.add_eq]

end Table

end Collate
