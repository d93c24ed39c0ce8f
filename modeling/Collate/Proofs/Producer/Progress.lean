import Collate.Proofs.Producer.Trace

/-!
# Producers come to an end

A producer that finds the gate free leaves it free and leaves nothing waiting, whatever arrives
while it merges.  How often signals are polled is bounded by what waits and what arrives, since
every poll is paid for by a payload.  A producer that finds the gate taken leaves its payload to
the one who holds it.
-/

namespace Collate

/-! ### What a script brings and what a record counts -/

mutual

/-- How many payloads a call brings, with those of the calls that arrive during it. -/
def Call.additions : Call → Nat
  | .add _ polls _ => 1 + Poll.additions polls
  | .clear | .look => 0

/-- How many payloads calls bring that come one after the other. -/
def Call.additionsAll : List Call → Nat
  | [] => 0
  | call :: calls => call.additions + Call.additionsAll calls

/-- How many payloads arrive during the polls of a script. -/
def Poll.additions : List Poll → Nat
  | [] => 0
  | .mk calls _ :: polls => Call.additionsAll calls + Poll.additions polls

end

mutual

/-- How often signals were polled during a call, with those of the calls that arrived during it. -/
def Step.polled : Step → Nat
  | .mk _ polls _ => PollStep.polled polls

/-- How often signals were polled during calls that came one after the other. -/
def Step.polledAll : List Step → Nat
  | [] => 0
  | step :: steps => step.polled + Step.polledAll steps

/-- How many polls there were, with those of the calls that arrived before their answers. -/
def PollStep.polled : List PollStep → Nat
  | [] => 0
  | .mk _ _ calls :: polls => 1 + Step.polledAll calls + PollStep.polled polls

end

theorem Poll.additions_eq (rest : Bool) (polls : List Poll) :
  additions polls = Call.additionsAll (next rest polls).calls + additions polls.tail
  := by
  match polls with
  | [] => rfl
  | mk calls raised :: polls => rfl

namespace Table

/-! ### Termination -/

/-- How many polls a producer can still pay for with what waits. -/
def funds (t : Table) : Stage → Nat
  | .arriving _ => 2 * t.pending.length + 3
  | .merged => 2 * t.pending.length + 2
  | .released => 2 * t.pending.length + 1

theorem funds_proceed_le (t : Table) :
  t.proceed.1.funds t.proceed.2.1 ≤ max (2 * t.pending.length) 1
  := by
  cases hpending : t.pending with
  | nil =>
      rw [proceed_of_nil hpending]
      simp [funds, hpending]
  | cons payload pending =>
      cases hcleared : t.cleared with
      | true =>
          rw [proceed_of_cleared hpending hcleared]
          simp only [funds, List.length_cons]
          omega
      | false =>
          rw [proceed_of_cons hpending hcleared]
          simp only [funds, pending_merge, List.length_cons]
          omega

theorem funds_enter_le {t t' : Table} {stage' : Stage} {fault : Option Error}
    (h : t.enter = (t', some stage', fault)) :
  t'.funds stage' ≤ max (2 * t.pending.length) 1
  := by
  have hfunds := { t with gate := ⟨true⟩ }.funds_proceed_le
  rw [enter_of_free (fits_enter h).1, Prod.mk.injEq, Prod.mk.injEq, Option.some.injEq] at h
  obtain ⟨rfl, rfl, -⟩ := h
  apply hfunds

/-- Every poll is paid for. -/
theorem funds_resume_lt {t t' : Table} {stage stage' : Stage} {raised : Bool}
    {fault : Option Error} (h : t.resume stage raised = (t', some stage', fault)) :
  t'.funds stage' < t.funds stage
  := by
  have hle := t.length_pending_heed_le raised
  cases stage with
  | arriving payload =>
      rw [resume] at h
      split at h
      · simp at h
      · have := funds_enter_le h
        simp only [funds, List.length_append, List.length_singleton] at this ⊢
        omega
  | merged =>
      have hfunds := (t.heed raised).funds_proceed_le
      rw [resume_merged, Prod.mk.injEq, Prod.mk.injEq, Option.some.injEq] at h
      obtain ⟨rfl, rfl, -⟩ := h
      simp only [funds] at hfunds ⊢
      omega
  | released =>
      rw [resume] at h
      split at h
      · simp at h
      next hwaiting =>
        have := funds_enter_le h
        have : (t.heed raised).pending.length ≠ 0 := by simpa using hwaiting
        simp only [funds] at *
        omega

theorem length_pending_of_returns {t t' : Table} {stage : Stage} {raised : Bool}
    {fault : Option Error} (h : t.resume stage raised = (t', none, fault)) :
  2 * t'.pending.length < t.funds stage
  := by
  have hle := t.length_pending_heed_le raised
  cases stage with
  | arriving payload =>
      rw [resume] at h
      split at h
      · obtain ⟨rfl, -⟩ := h
        simp [funds, discard]
      · obtain ⟨-, rfl, -⟩ := enter_returns h
        simp only [funds, List.length_append, List.length_singleton]
        omega
  | merged => simp [resume_merged] at h
  | released =>
      rw [resume] at h
      split at h
      · obtain ⟨rfl, -⟩ := h
        simp only [funds]
        omega
      · obtain ⟨-, rfl, -⟩ := enter_returns h
        simp only [funds]
        omega

/-- Signals are polled no more often than what waits and what arrives can pay for. -/
theorem polled_run :
  (∀ t call, (run t call).polled + 2 * (run t call).after.pending.length
      ≤ 2 * t.pending.length + 3 * call.additions)
    ∧ (∀ t calls, Step.polledAll (runAll t calls).2 + 2 * (runAll t calls).1.pending.length
      ≤ 2 * t.pending.length + 3 * Call.additionsAll calls)
    ∧ ∀ t stage rest polls, PollStep.polled (runPolls t stage rest polls).2.2
        + 2 * (runPolls t stage rest polls).1.pending.length
      ≤ t.funds stage + 3 * Poll.additions polls
  := by
  apply run_induction
  case add =>
    intro t payload polls rest h
    simp only [funds] at h
    simp only [run_add, Step.polled, Step.after, Call.additions]
    omega
  case clear =>
    intro t
    simp [run, Step.polled, Step.after, clear, PollStep.polled]
  case look =>
    intro t
    simp [run, Step.polled, Step.after, PollStep.polled]
  case nil =>
    intro t
    simp [runAll, Step.polledAll]
  case cons =>
    intro t call calls first later
    simp only [runAll, Step.polledAll, Call.additionsAll]
    omega
  case poll =>
    intro t stage rest polls harrived hproceeds
    rw [Poll.additions_eq rest polls]
    rcases h : (t.runAll (Poll.next rest polls).calls).1.resume stage (Poll.next rest polls).raised
      with ⟨t', _ | stage', fault⟩
    · have := length_pending_of_returns h
      rw [runPolls_of_returns h]
      simp only [PollStep.polled]
      cases stage <;> simp only [funds] at * <;> omega
    · have := funds_resume_lt h
      have := hproceeds _ _ _ h
      rw [runPolls_of_proceeds h]
      simp only [PollStep.polled]
      cases stage <;> simp only [funds] at * <;> omega

/-! ### The end of a run -/

/-- Whoever has had the gate leaves nothing waiting. -/
theorem pending_runPolls (t : Table) (stage : Stage) (rest : Bool) (polls : List Poll)
    (fits : stage.Fits t) (free : stage.gateAfter t = .free) :
  (t.runPolls stage rest polls).1.pending = []
  := by
  induction t, stage, rest, polls using polls_induction with
  | poll t stage rest polls ih =>
      have hgate := gate_run.2.1 t (Poll.next rest polls).calls
      rcases h : (t.runAll (Poll.next rest polls).calls).1.resume stage
        (Poll.next rest polls).raised with ⟨t', _ | stage', fault⟩
      · obtain ⟨hmerged, -, -, hempty⟩ := resume_returns h
        rw [runPolls_of_returns h]
        apply hempty
        rw [hgate]
        cases stage with
        | arriving => apply Gate.eq_free_iff.mp free
        | merged => contradiction
        | released => apply fits
      · obtain ⟨-, hfits, hfree⟩ := resume_proceeds (fits.of_gate hgate) h
        rw [runPolls_of_proceeds h]
        apply ih _ _ _ h hfits hfree

/-! ### Runs while the gate is held -/

/-- Whoever arrives while the gate is held returns after the first answer. -/
theorem resume_of_held {t : Table} (h : t.gate.held = true) (payload : Payload) (raised : Bool) :
  ∃ t', t.resume (.arriving payload) raised = (t', none, none)
    ∧ t.resumed (.arriving payload) raised = [.arrived payload raised]
  := by
  rw [resume, resumed]
  split
  · exact ⟨_, rfl, rfl⟩
  · rw [entered, enter_of_held (by apply h), Gate.acquire?, if_pos h]
    exact ⟨_, rfl, rfl⟩

/-- Whoever finds the gate taken does nothing that needs it. -/
theorem atGate_trace_of_held :
  (∀ t call, t.gate.held = true → ∀ entry ∈ trace t call, entry.2.atGate = false)
    ∧ (∀ t calls, t.gate.held = true → ∀ entry ∈ traceAll t calls, entry.2.atGate = false)
    ∧ ∀ t stage rest polls, t.gate.held = true → ∀ payload, stage = .arriving payload →
      ∀ entry ∈ tracePolls t stage rest polls, entry.2.atGate = false
  := by
  apply run_induction
  case add =>
    intro t payload polls rest h hheld
    apply h hheld payload rfl
  case clear =>
    intro t _
    simp [trace, Event.atGate]
  case look =>
    intro t _
    simp [trace]
  case nil =>
    intro t _
    simp [traceAll]
  case cons =>
    intro t call calls first later hheld entry hentry
    obtain hentry | hentry := List.mem_append.mp hentry
    · apply first hheld entry hentry
    · apply later _ entry hentry
      rw [gate_run.1]
      apply hheld
  case poll =>
    rintro t stage rest polls harrived - hheld payload rfl entry hentry
    have hheld' : (t.runAll (Poll.next rest polls).calls).1.gate.held = true := by
      rw [gate_run.2.1]
      apply hheld
    obtain ⟨t', hresume, hresumed⟩ := resume_of_held hheld' payload (Poll.next rest polls).raised
    rw [tracePolls_of_returns hresume, hresumed, List.mem_cons, List.mem_append] at hentry
    obtain rfl | hentry | hentry := hentry
    · rfl
    · obtain ⟨inner, hinner, rfl⟩ := List.mem_map.mp hentry
      apply harrived hheld inner hinner
    · obtain rfl := List.mem_singleton.mp hentry
      rfl

/-- Events that do not need the gate change nothing but what waits, unless they clear the table. -/
theorem Path.eq_of_not_atGate {t t' : Table} {events : List Event} (path : Path t events t')
    (h : ∀ event ∈ events, event.atGate = false) :
  { t' with pending := [] } = { t with pending := [] } ∨ t' = t.clear
  := by
  suffices key : ∀ start : Table,
      { t with pending := [] } = { start with pending := [] } ∨ t = start.clear →
      { t' with pending := [] } = { start with pending := [] } ∨ t' = start.clear from
    key t (.inl rfl)
  induction path with
  | nil =>
      intro start hstart
      apply hstart
  | @cons t t' event events enabled _ ih =>
      intro start hstart
      rw [List.forall_mem_cons] at h
      apply ih h.2 start
      cases event with
      | asked => apply hstart
      | arrived payload raised =>
          rw [act]
          obtain hstart | rfl := hstart
          · left
            rw [← hstart]
            split <;> rfl
          · right
            simp [clear, discard]
      | answered raised =>
          rw [act]
          obtain hstart | rfl := hstart
          · left
            rw [← hstart]
            cases raised <;> rfl
          · right
            cases raised <;> rfl
      | cleared =>
          right
          obtain hstart | rfl := hstart
          · calc t.clear
                = { t with pending := [] }.clear := rfl
              _ = start.clear := by
                rw [hstart]
                rfl
          · rfl
      | acquired => simp [Event.atGate] at h
      | merged => simp [Event.atGate] at h
      | skipped => simp [Event.atGate] at h
      | released => simp [Event.atGate] at h

/-! ### Busy tables -/

/-- The gate stays held until it is released. -/
theorem Path.held {t t' : Table} {events : List Event} (path : Path t events t')
    (held : t.gate.held = true) (h : .released ∉ events) :
  t'.gate.held = true
  := by
  induction path with
  | nil => apply held
  | @cons t t' event events enabled _ ih =>
      rw [List.mem_cons, not_or] at h
      apply ih _ h.2
      cases event with
      | arrived payload raised =>
          rw [act]
          split <;> apply held
      | answered raised =>
          rw [act, gate_heed]
          apply held
      | merged payload fault =>
          rw [act, gate_merge]
          apply held
      | released =>
          absurd h.1
          rfl
      | acquired => rfl
      | asked => apply held
      | skipped => apply held
      | cleared => apply held

/-- Between a merge and the release of the gate the table is busy. -/
theorem Path.busy {t t' : Table} {before during after : List Event} {payload : Payload}
    {fault : Option Error} {busy : Bool}
    (path : Path t (before ++ .merged payload fault :: (during ++ .asked busy :: after)) t')
    (h : .released ∉ during) :
  busy = true
  := by
  obtain ⟨t₁, -, path₁⟩ := path.split
  cases path₁ with
  | cons hmerged path₂ =>
      obtain ⟨t₂, path₂, path₃⟩ := path₂.split
      have hheld : t₂.gate.held = true := by
        apply path₂.held _ h
        rw [act, gate_merge]
        apply hmerged.1
      cases path₃ with
      | cons hasked _ =>
          have hbusy : busy = t₂.busy := hasked
          rw [hbusy, Table.busy, hheld, Bool.or_true]

/-- Every poll between a merge and the release of the gate finds the table busy. -/
def BusyWhileMerging (events : List Event) : Prop :=
  ∀ before payload fault during busy after,
    events = before ++ .merged payload fault :: (during ++ .asked busy :: after) →
    .released ∉ during → busy = true

/-! ### The main result -/

/-- A producer that finds the gate free comes to an end, and leaves the gate free and nothing
waiting.  While it merges, polls find the table busy, and other producers leave their payloads
waiting. -/
theorem add_settles {t : Table} (free : t.gate.held = false) (payload : Payload)
    (polls : List Poll) (rest : Bool) :
  let call : Call := .add payload polls rest
  let step := t.run call
  step.polled ≤ 2 * t.pending.length + 3 * call.additions
    ∧ step.after.pending = []
    ∧ step.after.gate.held = false
    ∧ step.after.busy = false
    ∧ BusyWhileMerging (events (t.trace call))
    ∧ ∀ (taken : Table) (payload' : Payload) (polls' : List Poll) (rest' : Bool),
      taken.gate.held = true →
      let call' : Call := .add payload' polls' rest'
      let step' := taken.run call'
      step'.fault = none
        ∧ step'.after.gate.held = true
        ∧ (∀ event ∈ events (taken.trace call'), event.atGate = false)
        ∧ ({ step'.after with pending := [] } = { taken with pending := [] }
          ∨ step'.after = taken.clear)
  := by
  intro call step
  have hpolled : step.polled + 2 * step.after.pending.length
      ≤ 2 * t.pending.length + 3 * call.additions := polled_run.1 t call
  have hpending : step.after.pending = [] :=
    t.pending_runPolls (.arriving payload) rest polls trivial (Gate.eq_free_iff.mpr free)
  have hgate : step.after.gate.held = false := by
    rw [gate_run.1 t call]
    apply free
  use by omega, hpending, hgate, ?idle, ?busy
  case idle =>
    rw [Table.busy, hpending, hgate]
    rfl
  case busy =>
    intro before payload fault during busy after hevents
    have hpath := path_trace.1 t call
    rw [hevents] at hpath
    apply hpath.busy
  case _ =>
    intro taken payload' polls' rest' hheld call' step'
    have htrace := atGate_trace_of_held.1 taken call' hheld
    have hevents : ∀ event ∈ events (taken.trace call'), event.atGate = false := by
      intro event hevent
      obtain ⟨entry, hentry, rfl⟩ := List.mem_map.mp hevent
      apply htrace entry hentry
    use ?fault, ?held, hevents, (path_trace.1 taken call').eq_of_not_atGate hevents
    case fault =>
      rw [taken.fault_trace call', List.findSome?_eq_none_iff]
      rintro ⟨level, event⟩ hentry
      have := htrace _ hentry
      cases event <;> simp_all [ownOf, Event.fault?, Event.atGate]
    case held =>
      rw [gate_run.1 taken call']
      apply hheld

/-- While one payload is merged, another one arrives that is refused; then the table is cleared
and the signal raised. -/
theorem add_settles_cleared :
  let table := ofPlan ⟨1, none, some 0, []⟩ none .unbounded
  let refused : Call := .add (.ofRows [⟨.detail .root, []⟩]) [] false
  let step := table.run (.add (.ofRows []) [.mk [] false, .mk [refused, .clear] true] false)
  step.polled ≤ 6 ∧ step.after.pending = [] ∧ step.after.busy = false
  := by
  intro table refused step
  have free : table.gate.held = false := rfl
  obtain ⟨hpolled, hpending, -, hbusy, -⟩ := add_settles free (.ofRows [])
    [.mk [] false, .mk [refused, .clear] true] false
  use hpolled, hpending, hbusy

end Table

end Collate
