import Collate.Proofs.Feed

/-!
# What happens during a run

The events of a run, in the order in which they happen, each with the number of calls that were in
progress around it.  They form a path: each event can happen at the table that those before it
have made, and together they make the table with which the run ends.
-/

namespace Collate

/-- Something that happens to a table during a run. -/
inductive Event where
  /-- A producer asks its signal, while the table is busy or is not. -/
  | asked (busy : Bool)
  /-- The first poll of a producer was answered, and it brings its payload. -/
  | arrived (payload : Payload) (raised : Bool)
  /-- A later poll was answered. -/
  | answered (raised : Bool)
  /-- A producer takes the gate. -/
  | acquired
  /-- The holder of the gate merges the oldest payload, with the error that comes of it. -/
  | merged (payload : Payload) (fault : Option Error)
  /-- The holder of the gate drops the oldest payload, the table having been cleared. -/
  | skipped
  /-- The holder of the gate lets go of it. -/
  | released
  /-- The table is cleared. -/
  | cleared

namespace Table

/-! ### Paths -/

/-- What an event makes of a table. -/
def act (t : Table) : Event → Table
  | .asked _ => t
  | .arrived payload raised =>
    if raised || t.cleared then t.discard else { t with pending := t.pending ++ [payload] }
  | .answered raised => t.heed raised
  | .acquired => { t with gate := ⟨true⟩ }
  | .merged payload _ => ({ t with pending := t.pending.tail }.merge payload).1
  | .skipped => { t with pending := t.pending.tail }
  | .released => { t with gate := .free }
  | .cleared => t.clear

/-- Whether an event can happen to a table. -/
def Enabled (t : Table) : Event → Prop
  | .asked busy => busy = t.busy
  | .acquired => t.gate.held = false
  | .merged payload fault =>
    t.gate.held = true ∧ t.cleared = false ∧ t.pending.head? = some payload
      ∧ ({ t with pending := t.pending.tail }.merge payload).2 = fault
  | .skipped => t.gate.held = true ∧ t.cleared = true ∧ t.pending ≠ []
  | .released => t.gate.held = true
  | .arrived _ _ | .answered _ | .cleared => True

/-- Events that can happen one after the other, from one table to another. -/
inductive Path : Table → List Event → Table → Prop where
  | nil (t : Table) : Path t [] t
  | cons {t t' : Table} {event : Event} {events : List Event} (enabled : t.Enabled event)
      (rest : Path (t.act event) events t') : Path t (event :: events) t'

/-- An enabled event makes a history of one event. -/
theorem Path.single {t : Table} {event : Event} (enabled : t.Enabled event) :
  Path t [event] (t.act event)
  := .cons enabled (.nil _)

/-- Histories that meet at a table can be joined. -/
theorem Path.append {t t' t'' : Table} {events events' : List Event} (path : Path t events t')
    (path' : Path t' events' t'') :
  Path t (events ++ events') t''
  := by
  induction path with
  | nil => apply path'
  | cons enabled _ ih => apply Path.cons enabled (ih path')

/-- A history can be cut wherever its events are. -/
theorem Path.split {t t'' : Table} {events events' : List Event}
    (path : Path t (events ++ events') t'') :
  ∃ t', Path t events t' ∧ Path t' events' t''
  := by
  induction events generalizing t with
  | nil => exact ⟨t, .nil t, path⟩
  | cons event events ih =>
      cases path with
      | cons enabled rest =>
          obtain ⟨t', hevents, hevents'⟩ := ih rest
          exact ⟨t', .cons enabled hevents, hevents'⟩

/-! ### Traces -/

/-- What happens when the holder of the gate proceeds. -/
def proceeded (t : Table) : List Event :=
  match t.pending with
  | [] => [.released]
  | payload :: pending =>
    if t.cleared then [.skipped, .released]
    else [.merged payload ({ t with pending }.merge payload).2]

/-- What happens when a producer tries the gate. -/
def entered (t : Table) : List Event :=
  match t.gate.acquire? with
  | none => []
  | some gate => .acquired :: { t with gate }.proceeded

/-- What happens when a producer goes on after an answer of its signal. -/
def resumed (t : Table) (stage : Stage) (raised : Bool) : List Event :=
  match stage with
  | .arriving payload =>
    .arrived payload raised ::
      if raised || t.cleared then [] else { t with pending := t.pending ++ [payload] }.entered
  | .merged => .answered raised :: (t.heed raised).proceeded
  | .released =>
    .answered raised ::
      if (t.heed raised).pending.isEmpty then [] else (t.heed raised).entered

/-- The events of one call, each with the number of calls around it. -/
abbrev Trace := List (Nat × Event)

/-- The events that one producer causes itself. -/
def own (events : List Event) : Trace :=
  events.map fun event => (0, event)

/-- The trace of calls that arrive during another one. -/
def deeper (trace : Trace) : Trace :=
  trace.map fun entry => (entry.1 + 1, entry.2)

/-- What happens until a producer returns, when no other producer arrives and its signal keeps to
one answer. -/
def traceSettle (t : Table) (stage : Stage) (raised : Bool) : Trace :=
  (0, .asked t.busy) :: own (t.resumed stage raised) ++
    match _answered : t.resume stage raised with
    | (_, none, _) => []
    | (t', some stage', _) => t'.traceSettle stage' raised
termination_by t.effort stage
decreasing_by exact effort_resume_lt _answered

mutual

/-- What happens during a call. -/
def trace (t : Table) : Call → Trace
  | .add payload polls rest => t.tracePolls (.arriving payload) rest polls
  | .clear => [(0, .cleared)]
  | .look => []

/-- What happens during calls that come one after the other. -/
def traceAll (t : Table) : List Call → Trace
  | [] => []
  | call :: calls => t.trace call ++ (t.run call).after.traceAll calls

/-- What happens until a producer returns, under a script of polls. -/
def tracePolls (t : Table) (stage : Stage) (rest : Bool) : List Poll → Trace
  | [] => t.traceSettle stage rest
  | .mk calls raised :: polls =>
    let arrived := (t.runAll calls).1
    (0, .asked t.busy) :: deeper (t.traceAll calls) ++ own (arrived.resumed stage raised) ++
      match arrived.resume stage raised with
      | (_, none, _) => []
      | (t', some stage', _) => t'.tracePolls stage' rest polls

end

/-- Settling a stage reads the gate and resumes, and goes on for as long as a stage is left. -/
theorem traceSettle_eq (t : Table) (stage : Stage) (raised : Bool) :
  t.traceSettle stage raised
    = (0, .asked t.busy) :: own (t.resumed stage raised) ++
      match t.resume stage raised with
      | (_, none, _) => []
      | (t', some stage', _) => t'.traceSettle stage' raised
  := by
  rw [traceSettle]
  split
  next h => rw [h]
  next h => rw [h]

/-- Every poll is traced in the same way. -/
theorem tracePolls_eq (t : Table) (stage : Stage) (rest : Bool) (polls : List Poll) :
  t.tracePolls stage rest polls
    = let poll := Poll.next rest polls
      let arrived := (t.runAll poll.calls).1
      (0, .asked t.busy) :: deeper (t.traceAll poll.calls) ++ own (arrived.resumed stage poll.raised)
        ++ match arrived.resume stage poll.raised with
          | (_, none, _) => []
          | (t', some stage', _) => t'.tracePolls stage' rest polls.tail
  := by
  match polls with
  | [] =>
      rw [tracePolls, traceSettle_eq]
      simp only [Poll.next, Poll.calls, Poll.raised, runAll, traceAll, List.tail_nil, tracePolls,
        deeper, List.map_nil, List.cons_append, List.nil_append]
  | .mk calls raised :: polls =>
      rw [tracePolls]
      rfl

/-- A poll at which the stage returns ends the trace with what the resumption did. -/
theorem tracePolls_of_returns {t t' : Table} {stage : Stage} {rest : Bool} {polls : List Poll}
    {fault : Option Error}
    (h : (t.runAll (Poll.next rest polls).calls).1.resume stage (Poll.next rest polls).raised
      = (t', none, fault)) :
  t.tracePolls stage rest polls
    = (0, .asked t.busy) :: (deeper (t.traceAll (Poll.next rest polls).calls)
      ++ own ((t.runAll (Poll.next rest polls).calls).1.resumed stage (Poll.next rest polls).raised))
  := by
  rw [tracePolls_eq]
  simp only [h, List.append_nil, List.cons_append]

/-- A poll at which the stage goes on continues the trace from the stage it leaves. -/
theorem tracePolls_of_proceeds {t t' : Table} {stage stage' : Stage} {rest : Bool}
    {polls : List Poll} {fault : Option Error}
    (h : (t.runAll (Poll.next rest polls).calls).1.resume stage (Poll.next rest polls).raised
      = (t', some stage', fault)) :
  t.tracePolls stage rest polls
    = (0, .asked t.busy) :: (deeper (t.traceAll (Poll.next rest polls).calls)
      ++ own ((t.runAll (Poll.next rest polls).calls).1.resumed stage (Poll.next rest polls).raised)
      ++ t'.tracePolls stage' rest polls.tail)
  := by
  rw [tracePolls_eq]
  simp only [h, List.cons_append, List.append_assoc]

/-! ### A trace is a path -/

/-- The events of a trace. -/
def events (trace : Trace) : List Event :=
  trace.map (·.2)

@[simp]
theorem events_cons (entry : Nat × Event) (trace : Trace) :
  events (entry :: trace) = entry.2 :: events trace
  := rfl

/-- The events of two traces taken together are those of the one and then those of the other. -/
@[simp]
theorem events_append (trace trace' : Trace) :
  events (trace ++ trace') = events trace ++ events trace'
  := List.map_append

@[simp]
theorem events_own (l : List Event) :
  events (own l) = l
  := by
  simp [events, own, Function.comp_def]

/-- Nesting a trace one call deeper keeps its events. -/
@[simp]
theorem events_deeper (trace : Trace) :
  events (deeper trace) = events trace
  := by
  simp [events, deeper, Function.comp_def]

theorem proceeded_of_nil {t : Table} (h : t.pending = []) :
  t.proceeded = [.released]
  := by
  rw [proceeded, h]

theorem proceeded_of_cleared {t : Table} {payload : Payload} {pending : List Payload}
    (h : t.pending = payload :: pending) (cleared : t.cleared = true) :
  t.proceeded = [.skipped, .released]
  := by
  rw [proceeded, h]
  simp only [if_pos cleared]

theorem proceeded_of_cons {t : Table} {payload : Payload} {pending : List Payload}
    (h : t.pending = payload :: pending) (uncleared : t.cleared = false) :
  t.proceeded = [.merged payload ({ t with pending }.merge payload).2]
  := by
  rw [proceeded, h]
  simp only [uncleared, Bool.false_eq_true, if_false]

/-- What one step of the gate holder does is a history of the events it reports. -/
theorem path_proceeded {t : Table} (h : t.gate.held = true) :
  Path t t.proceeded t.proceed.1
  := by
  cases hpending : t.pending with
  | nil =>
      have enabled : t.Enabled .released := h
      rw [proceed_of_nil hpending, proceeded_of_nil hpending]
      apply Path.single enabled
  | cons payload pending =>
      have htail : { t with pending := t.pending.tail } = { t with pending } := by
        rw [hpending, List.tail_cons]
      cases hcleared : t.cleared with
      | true =>
          have enabled : t.Enabled .skipped := ⟨h, hcleared, by simp [hpending]⟩
          have enabled' : { t with pending }.Enabled .released := h
          rw [proceed_of_cleared hpending hcleared, proceeded_of_cleared hpending hcleared]
          apply Path.cons enabled
          rw [act, htail]
          apply Path.single enabled'
      | false =>
          have enabled : t.Enabled (.merged payload ({ t with pending }.merge payload).2) := by
            use h, hcleared, by simp [hpending]
            rw [htail]
          rw [proceed_of_cons hpending hcleared, proceeded_of_cons hpending hcleared]
          rw [← htail] at enabled ⊢
          apply Path.single enabled

/-- Entering the gate is a history of the events it reports. -/
theorem path_entered (t : Table) :
  Path t t.entered t.enter.1
  := by
  cases h : t.gate.held with
  | true =>
      rw [enter_of_held h, entered, Gate.acquire?, if_pos h]
      apply Path.nil
  | false =>
      have enabled : t.Enabled .acquired := h
      rw [enter_of_free h, entered, Gate.acquire?, h]
      apply Path.cons enabled
      apply path_proceeded rfl

/-- Resuming a stage is a history of the events it reports. -/
theorem path_resumed {t : Table} {stage : Stage} (fits : stage.Fits t) (raised : Bool) :
  Path t (t.resumed stage raised) (t.resume stage raised).1
  := by
  have answered : t.Enabled (.answered raised) := trivial
  cases stage with
  | arriving payload =>
      have arrived : t.Enabled (.arrived payload raised) := trivial
      rw [resumed, resume]
      apply Path.cons arrived
      rw [act]
      split
      · apply Path.nil
      · apply path_entered
  | merged =>
      have hheld : (t.heed raised).gate.held = true := by
        rw [gate_heed]
        apply fits
      apply Path.cons answered
      apply path_proceeded hheld
  | released =>
      rw [resumed, resume]
      apply Path.cons answered
      rw [act]
      split
      · apply Path.nil
      · apply path_entered

/-- What happens during a run makes the table with which it ends. -/
theorem path_trace :
  (∀ t call, Path t (events (trace t call)) (run t call).after)
    ∧ (∀ t calls, Path t (events (traceAll t calls)) (runAll t calls).1)
    ∧ ∀ t stage rest polls, stage.Fits t →
      Path t (events (tracePolls t stage rest polls)) (runPolls t stage rest polls).1
  := by
  apply run_induction
  case add =>
    intro t payload polls rest h
    apply h trivial
  case clear =>
    intro t
    have enabled : t.Enabled .cleared := trivial
    apply Path.single enabled
  case look =>
    intro t
    apply Path.nil
  case nil =>
    intro t
    apply Path.nil
  case cons =>
    intro t call calls first later
    rw [traceAll, events_append]
    apply first.append later
  case poll =>
    intro t stage rest polls harrived hproceeds fits
    have fits' := fits.of_gate (gate_run.2.1 t (Poll.next rest polls).calls)
    have hresumed := path_resumed fits' (Poll.next rest polls).raised
    have asked : t.Enabled (.asked t.busy) := rfl
    rcases h : (t.runAll (Poll.next rest polls).calls).1.resume stage (Poll.next rest polls).raised
      with ⟨t', _ | stage', fault⟩
    · rw [runPolls_of_returns h, tracePolls_of_returns h]
      rw [h] at hresumed
      simp only [events_cons, events_append, events_deeper, events_own]
      apply Path.cons asked
      apply harrived.append hresumed
    · obtain ⟨-, hfits, -⟩ := resume_proceeds fits' h
      rw [runPolls_of_proceeds h, tracePolls_of_proceeds h]
      rw [h] at hresumed
      simp only [events_cons, events_append, events_deeper, events_own]
      apply Path.cons asked
      apply (harrived.append hresumed).append (hproceeds _ _ _ h hfits)

/-! ### What a record says of a trace -/

/-- What a producer's own events say. -/
def ownOf {α : Type} (f : Event → Option α) (entry : Nat × Event) : Option α :=
  if entry.1 = 0 then f entry.2 else none

/-- A call sees each of its own events. -/
theorem findSome?_own {α : Type} (f : Event → Option α) (l : List Event) :
  (own l).findSome? (ownOf f) = l.findSome? f
  := by
  rw [own, List.findSome?_map]
  rfl

/-- A call sees no event of the calls made within it. -/
theorem findSome?_deeper {α : Type} (f : Event → Option α) (trace : Trace) :
  (deeper trace).findSome? (ownOf f) = none
  := by
  rw [deeper, List.findSome?_map, List.findSome?_eq_none_iff]
  intro entry _
  rfl

end Table

namespace Event

/-- The error that comes of a merge. -/
def fault? : Event → Option Error
  | merged _ fault => fault
  | _ => none

/-- Whether only the holder of the gate can cause an event. -/
def atGate : Event → Bool
  | acquired | merged _ _ | skipped | released => true
  | asked _ | arrived _ _ | answered _ | cleared => false

end Event

/-- The event of an answer. -/
def Stage.answer (raised : Bool) : Stage → Event
  | .arriving payload => .arrived payload raised
  | .merged | .released => .answered raised

namespace Table

/-- Whatever the gate holder does, it does at the gate. -/
theorem atGate_proceeded (t : Table) :
  ∀ event ∈ t.proceeded, event.atGate = true
  := by
  unfold proceeded
  split
  · simp [Event.atGate]
  · split <;> simp [Event.atGate]

/-- Whatever a call does on entering, it does at the gate. -/
theorem atGate_entered (t : Table) :
  ∀ event ∈ t.entered, event.atGate = true
  := by
  unfold entered
  split
  · simp
  · rw [List.forall_mem_cons]
    use rfl
    apply atGate_proceeded

/-- After an answer a producer causes nothing but what the gate allows. -/
theorem resumed_eq (t : Table) (stage : Stage) (raised : Bool) :
  ∃ events, t.resumed stage raised = stage.answer raised :: events
    ∧ ∀ event ∈ events, event.atGate = true
  := by
  cases stage with
  | arriving payload =>
      refine ⟨_, rfl, ?_⟩
      split
      · simp
      · apply atGate_entered
  | merged =>
      refine ⟨_, rfl, ?_⟩
      apply atGate_proceeded
  | released =>
      refine ⟨_, rfl, ?_⟩
      split
      · simp
      · apply atGate_entered

/-- The error of a step of the gate holder is the first that its events report. -/
theorem fault_proceed (t : Table) :
  t.proceed.2.2 = t.proceeded.findSome? Event.fault?
  := by
  cases hpending : t.pending with
  | nil =>
      rw [proceed_of_nil hpending, proceeded_of_nil hpending]
      rfl
  | cons payload pending =>
      cases hcleared : t.cleared with
      | true =>
          rw [proceed_of_cleared hpending hcleared, proceeded_of_cleared hpending hcleared]
          rfl
      | false =>
          rw [proceed_of_cons hpending hcleared, proceeded_of_cons hpending hcleared]
          simp only [List.findSome?_cons, List.findSome?_nil, Event.fault?]
          split <;> simp_all

/-- The error of entering the gate is the first that its events report. -/
theorem fault_enter (t : Table) :
  t.enter.2.2 = t.entered.findSome? Event.fault?
  := by
  cases h : t.gate.held with
  | true =>
      rw [enter_of_held h, entered, Gate.acquire?, if_pos h]
      rfl
  | false =>
      rw [enter_of_free h, entered, Gate.acquire?, h]
      apply fault_proceed

/-- The error of a resumption is the first that its events report. -/
theorem fault_resume (t : Table) (stage : Stage) (raised : Bool) :
  (t.resume stage raised).2.2 = (t.resumed stage raised).findSome? Event.fault?
  := by
  cases stage with
  | arriving payload =>
      rw [resume, resumed, List.findSome?_cons]
      split
      · rfl
      · apply fault_enter
  | merged => apply fault_proceed
  | released =>
      rw [resume, resumed, List.findSome?_cons]
      split
      · rfl
      · apply fault_enter

/-- The error a call returns is the first among its own events. -/
theorem fault_tracePolls (t : Table) (stage : Stage) (rest : Bool) (polls : List Poll) :
  (t.runPolls stage rest polls).2.1
    = (t.tracePolls stage rest polls).findSome? (ownOf Event.fault?)
  := by
  induction t, stage, rest, polls using polls_induction with
  | poll t stage rest polls ih =>
      have hfault := (t.runAll (Poll.next rest polls).calls).1.fault_resume stage
        (Poll.next rest polls).raised
      have hasked : ownOf Event.fault? (0, .asked t.busy) = none := rfl
      rcases h : (t.runAll (Poll.next rest polls).calls).1.resume stage
        (Poll.next rest polls).raised with ⟨t', _ | stage', fault⟩
      · rw [h] at hfault
        rw [runPolls_of_returns h, tracePolls_of_returns h, List.findSome?_cons, hasked,
          List.findSome?_append, findSome?_deeper, findSome?_own]
        apply hfault
      · rw [h] at hfault
        rw [runPolls_of_proceeds h, tracePolls_of_proceeds h, List.findSome?_cons, hasked,
          List.findSome?_append, List.findSome?_append, findSome?_deeper, findSome?_own, ← hfault,
          ← ih _ _ _ h]
        rfl

/-- A call returns the first error among the payloads that it merged itself. -/
theorem fault_trace (t : Table) (call : Call) :
  (t.run call).fault = (t.trace call).findSome? (ownOf Event.fault?)
  := by
  cases call with
  | add payload polls rest => apply fault_tracePolls
  | clear => rfl
  | look => rfl

end Table

end Collate
