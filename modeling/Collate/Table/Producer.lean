import Collate.Table.Basic

/-!
# Producers of a table

A producer adds a payload while it watches a termination signal.  It asks the signal before it
queues the payload, after each payload it has merged, and after it has let go of the merge gate;
when the signal is raised it drops whatever waits.  Whoever finds the gate taken leaves the
payload to the one who holds it.

What other producers do in the meantime is given as a script: each `Poll` of the signal says
which calls arrive at that moment and what the signal answers.  `Table.run` plays such a script
to its end and gives a record of every call and every poll.
-/

namespace Collate

mutual

/-- A call to a table. -/
inductive Call where
  /-- Adds a payload, with what happens at the polls of its signal; once they are used up the
  signal answers `rest`. -/
  | add (payload : Payload) (polls : List Poll) (rest : Bool)
  | clear
  /-- Only looks at the table. -/
  | look

/-- A poll of a termination signal: the calls that arrive before it answers, and its answer. -/
inductive Poll where
  | mk (calls : List Call) (raised : Bool)

end

mutual

/-- A call that has returned: the error it returned, the polls of its signal, and the table as
it left it. -/
inductive Step where
  | mk (fault : Option Error) (polls : List PollStep) (after : Table)

/-- A poll that was answered: whether the table was busy when it was asked, what the signal
answered, and the calls that arrived before. -/
inductive PollStep where
  | mk (busy : Bool) (raised : Bool) (calls : List Step)

end

namespace Step

def fault : Step → Option Error
  | .mk fault _ _ => fault

def polls : Step → List PollStep
  | .mk _ polls _ => polls

def after : Step → Table
  | .mk _ _ after => after

end Step

/-- Where a producer stands when it asks its signal. -/
inductive Stage where
  /-- It has a payload to queue. -/
  | arriving (payload : Payload)
  /-- It holds the gate and has just merged a payload. -/
  | merged
  /-- It has let go of the gate. -/
  | released

namespace Table

/-- With the gate held: merges the oldest payload that waits, or lets go of the gate if there
is none or the table was cleared. -/
def proceed (t : Table) : Table × Stage × Option Error :=
  match t.pending with
  | [] => ({ t with gate := t.gate.release }, .released, none)
  | payload :: pending =>
    if t.cleared then ({ t with pending, gate := t.gate.release }, .released, none)
    else
      let (t, fault) := { t with pending }.merge payload
      (t, .merged, fault)

/-- Takes the gate and proceeds, or returns at once if someone holds it. -/
def enter (t : Table) : Table × Option Stage × Option Error :=
  match t.gate.acquire? with
  | none => (t, none, none)
  | some gate =>
    let (t, stage, fault) := { t with gate }.proceed
    (t, some stage, fault)

/-- Bounds the polls that a producer still makes when no other producer arrives. -/
def effort (t : Table) : Stage → Nat
  | .arriving _ => 2 * t.pending.length + 3
  | .merged => 2 * t.pending.length + 1
  | .released => 2 * t.pending.length

@[simp]
theorem pending_merge (t : Table) (payload : Payload) :
  (t.merge payload).1.pending = t.pending
  := by
  simp only [merge]
  split <;> rfl

theorem effort_proceed_le (t : Table) :
  t.proceed.1.effort t.proceed.2.1 ≤ 2 * t.pending.length - 1
  := by
  unfold proceed
  split
  next h => simp [effort, h]
  next payload pending h =>
    split
    · simp [effort, h]
      omega
    · simp [effort, h]
      omega

theorem effort_enter_le {t t' : Table} {stage' : Stage} {fault : Option Error}
    (h : t.enter = (t', some stage', fault)) :
  t'.effort stage' ≤ 2 * t.pending.length - 1
  := by
  unfold enter at h
  split at h
  · simp at h
  next gate _ =>
    have := effort_proceed_le { t with gate }
    simp only [Prod.mk.injEq, Option.some.injEq] at h
    obtain ⟨rfl, rfl, -⟩ := h
    exact this

/-- The table on which a producer goes on after an answer. -/
def heed (t : Table) (raised : Bool) : Table :=
  if raised then t.discard else t

theorem length_pending_heed_le (t : Table) (raised : Bool) :
  (t.heed raised).pending.length ≤ t.pending.length
  := by
  cases raised <;> simp [heed, discard]

/-- What a producer does between one answer of its signal and the next poll.  Without a next
poll it returns. -/
def resume (t : Table) (stage : Stage) (raised : Bool) : Table × Option Stage × Option Error :=
  match stage with
  | .arriving payload =>
    if raised || t.cleared then (t.discard, none, none)
    else { t with pending := t.pending ++ [payload] }.enter
  | .merged =>
    let (t, stage, fault) := (t.heed raised).proceed
    (t, some stage, fault)
  | .released =>
    if (t.heed raised).pending.isEmpty then (t.heed raised, none, none)
    else (t.heed raised).enter

/-- A producer gets nearer to its end with every answer. -/
theorem effort_resume_lt {t t' : Table} {stage stage' : Stage} {raised : Bool}
    {fault : Option Error} (h : t.resume stage raised = (t', some stage', fault)) :
  t'.effort stage' < t.effort stage
  := by
  have hle := t.length_pending_heed_le raised
  cases stage with
  | arriving payload =>
    simp only [resume] at h
    split at h
    · simp at h
    · have := effort_enter_le h
      simp only [effort, List.length_append, List.length_singleton] at this ⊢
      omega
  | merged =>
    have hbound := effort_proceed_le (t.heed raised)
    simp only [resume] at h
    rcases hp : (t.heed raised).proceed with ⟨t₁, stage₁, fault₁⟩
    simp only [hp, Prod.mk.injEq, Option.some.injEq] at h hbound
    obtain ⟨rfl, rfl, -⟩ := h
    have : t.effort .merged = 2 * t.pending.length + 1 := rfl
    omega
  | released =>
    simp only [resume] at h
    split at h
    · simp at h
    next waiting =>
      have := effort_enter_le h
      have : t.effort .released = 2 * t.pending.length := rfl
      have : (t.heed raised).pending.length ≠ 0 := by simpa using waiting
      omega

/-- Takes a producer to its end when no other producer arrives and its signal keeps to one
answer. -/
def settle (t : Table) (stage : Stage) (raised : Bool) :
    Table × Option Error × List PollStep :=
  match _answered : t.resume stage raised with
  | (t', none, fault) => (t', fault, [.mk t.busy raised []])
  | (t', some stage', fault) =>
    let (t'', later, polls) := t'.settle stage' raised
    (t'', fault.or later, .mk t.busy raised [] :: polls)
termination_by t.effort stage
decreasing_by exact effort_resume_lt _answered

mutual

/-- Plays one call to its end. -/
def run (t : Table) : Call → Step
  | .add payload polls rest =>
    let (t, fault, polls) := t.runPolls (.arriving payload) rest polls
    .mk fault polls t
  | .clear => .mk none [] t.clear
  | .look => .mk none [] t

/-- Plays calls one after the other. -/
def runAll (t : Table) : List Call → Table × List Step
  | [] => (t, [])
  | call :: calls =>
    let step := t.run call
    let (t, steps) := step.after.runAll calls
    (t, step :: steps)

/-- Takes a producer to its end under a script of polls.  The error is the first one among the
payloads that it merged itself. -/
def runPolls (t : Table) (stage : Stage) (rest : Bool) :
    List Poll → Table × Option Error × List PollStep
  | [] => t.settle stage rest
  | .mk calls raised :: polls =>
    let (arrived, steps) := t.runAll calls
    match arrived.resume stage raised with
    | (t', none, fault) => (t', fault, [.mk t.busy raised steps])
    | (t', some stage', fault) =>
      let (t'', later, polls) := t'.runPolls stage' rest polls
      (t'', fault.or later, .mk t.busy raised steps :: polls)

end

/-- Adds a payload under a signal that keeps to one answer, while no other producer arrives. -/
def add (t : Table) (payload : Payload) (raised : Bool) : Table × Option Error :=
  let step := t.run (.add payload [] raised)
  (step.after, step.fault)

end Table

end Collate
