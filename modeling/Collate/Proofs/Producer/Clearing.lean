import Collate.Proofs.Producer.History

/-!
# A cleared table stays empty

A table may be cleared at any moment: while a producer that holds the gate asks its signal, before
another one has queued its payload, or by a call that arrived at the poll of a call that arrived at
a poll.  From then on it holds nothing and nothing waits.  Whoever is on the way goes on to the end
without merging anything, and whoever comes later returns without an error.
-/

namespace Collate

namespace Table

/-- A cleared table, which holds nothing and for which nothing waits. -/
structure Closed (t : Table) : Prop extends t.Emptied where
  pending : t.pending = []

theorem closed_clear (t : Table) :
  t.clear.Closed
  := ⟨t.emptied_clear, rfl⟩

/-- A closed table stays closed. -/
theorem Closed.act {t : Table} {event : Event} (closed : t.Closed) (enabled : t.Enabled event) :
  (t.act event).Closed
  := by
  have hemptied := closed.toEmptied.act enabled
  refine ⟨hemptied, ?_⟩
  cases event with
  | arrived payload raised =>
      rw [Table.act, closed.cleared, Bool.or_true]
      rfl
  | answered raised =>
      rw [Table.act, heed_of_nil closed.pending]
      apply closed.pending
  | merged payload fault =>
      obtain ⟨-, huncleared, -⟩ := enabled
      rw [closed.cleared] at huncleared
      contradiction
  | skipped =>
      obtain ⟨-, -, hwaiting⟩ := enabled
      exact absurd closed.pending hwaiting
  | asked => apply closed.pending
  | acquired => apply closed.pending
  | released => apply closed.pending
  | cleared => rfl

theorem Closed.path {t t' : Table} {events : List Event} (closed : t.Closed)
    (path : Path t events t') :
  t'.Closed ∧ ∀ payload fault, .merged payload fault ∉ events
  := by
  induction path with
  | nil => exact ⟨closed, fun _ _ => List.not_mem_nil⟩
  | @cons t t' event events enabled _ ih =>
      obtain ⟨hclosed, hmerged⟩ := ih (closed.act enabled)
      use hclosed
      intro payload fault h
      obtain rfl | h := List.mem_cons.mp h
      · obtain ⟨-, huncleared, -⟩ := enabled
        rw [closed.cleared] at huncleared
        contradiction
      · apply hmerged payload fault h

/-- Once it was cleared, a table is closed. -/
theorem Path.closed {t t' : Table} {events : List Event} (path : Path t events t')
    (h : .cleared ∈ events) :
  t'.Closed
  := by
  obtain ⟨before, after, rfl⟩ := List.append_of_mem h
  obtain ⟨t₁, -, hcleared⟩ := path.split
  cases hcleared with
  | cons _ rest => apply (t₁.closed_clear.path rest).1

/-- Whoever comes to a closed table returns without an error. -/
theorem Closed.fault_run {t : Table} (closed : t.Closed) (call : Call) :
  (t.run call).fault = none
  := by
  obtain ⟨-, hmerged⟩ := closed.path (path_trace.1 t call)
  rw [fault_trace, List.findSome?_eq_none_iff]
  rintro ⟨level, event⟩ hentry
  cases event with
  | merged payload fault => exact absurd (List.mem_map_of_mem hentry) (hmerged payload fault)
  | _ => simp [ownOf, Event.fault?]

/-! ### Calls that begin during a run -/

/-- A call that begins during a run: what has happened before, and the table that it finds. -/
structure Beginning where
  before : List Event
  found : Table
  call : Call

/-- What began in a part of a run, seen from the start of the run. -/
def Beginning.behind (events : List Event) (b : Beginning) : Beginning :=
  { b with before := events ++ b.before }

mutual

/-- The calls that begin with a call: the call itself, and those that arrive at its polls. -/
def begun (t : Table) : Call → List Beginning
  | .add payload polls rest =>
    ⟨[], t, .add payload polls rest⟩ :: t.begunPolls (.arriving payload) rest polls
  | .clear => [⟨[], t, .clear⟩]
  | .look => [⟨[], t, .look⟩]

/-- The calls that begin during calls that come one after the other. -/
def begunAll (t : Table) : List Call → List Beginning
  | [] => []
  | call :: calls =>
    t.begun call ++ ((t.run call).after.begunAll calls).map (.behind (events (t.trace call)))

/-- The calls that begin at the polls of a script. -/
def begunPolls (t : Table) (stage : Stage) (rest : Bool) : List Poll → List Beginning
  | [] => []
  | .mk calls raised :: polls =>
    let arrived := (t.runAll calls).1
    (t.begunAll calls).map (.behind [.asked t.busy]) ++
      match arrived.resume stage raised with
      | (_, none, _) => []
      | (t', some stage', _) =>
        (t'.begunPolls stage' rest polls).map
          (.behind (.asked t.busy :: events (t.traceAll calls) ++ arrived.resumed stage raised))

end

/-- What has happened before a call begins has made the table that it finds. -/
theorem path_begun :
  (∀ t call, ∀ b ∈ begun t call, Path t b.before b.found)
    ∧ (∀ t calls, ∀ b ∈ begunAll t calls, Path t b.before b.found)
    ∧ ∀ t stage rest polls, stage.Fits t →
      ∀ b ∈ begunPolls t stage rest polls, Path t b.before b.found
  := by
  apply run_induction
  case add =>
    intro t payload polls rest h b hb
    obtain rfl | hb := List.mem_cons.mp hb
    · apply Path.nil
    · apply h trivial b hb
  case clear =>
    intro t b hb
    obtain rfl := List.mem_singleton.mp hb
    apply Path.nil
  case look =>
    intro t b hb
    obtain rfl := List.mem_singleton.mp hb
    apply Path.nil
  case nil =>
    intro t b hb
    contradiction
  case cons =>
    intro t call calls first later b hb
    obtain hb | hb := List.mem_append.mp hb
    · apply first b hb
    · obtain ⟨b', hb', rfl⟩ := List.mem_map.mp hb
      apply (path_trace.1 t call).append (later b' hb')
  case poll =>
    intro t stage rest polls harrived hproceeds fits b hb
    cases polls with
    | nil => contradiction
    | cons poll polls =>
        obtain ⟨calls, raised⟩ := poll
        have asked : t.Enabled (.asked t.busy) := rfl
        have fits' := fits.of_gate (gate_run.2.1 t calls)
        obtain hb | hb := List.mem_append.mp hb
        · obtain ⟨b', hb', rfl⟩ := List.mem_map.mp hb
          apply Path.cons asked (harrived b' hb')
        · rcases h : (t.runAll calls).1.resume stage raised with ⟨t', _ | stage', fault⟩
          · simp [h] at hb
          · simp only [h] at hb
            obtain ⟨b', hb', rfl⟩ := List.mem_map.mp hb
            obtain ⟨-, hfits, -⟩ := resume_proceeds fits' h
            have hresumed := path_resumed fits' raised
            rw [h] at hresumed
            have hbefore := (path_trace.2.1 t calls).append hresumed
            apply Path.cons asked
            apply hbefore.append (hproceeds _ _ _ h hfits b' hb')

/-- From the moment a table is cleared, at whatever point of a run, it is closed: it holds nothing
and nothing waits.  Nothing is merged any more, whoever is on the way leaves it closed, and whoever
comes later returns without an error. -/
theorem clear_is_terminal (t : Table) (calls : List Call) :
  (∀ before after, events (t.traceAll calls) = before ++ .cleared :: after →
      (∀ payload fault, .merged payload fault ∉ after)
        ∧ ∀ during later, after = during ++ later →
          ∃ t', Path t (before ++ .cleared :: during) t' ∧ Path t' later (t.runAll calls).1
            ∧ t'.Closed)
    ∧ ∀ b ∈ t.begunAll calls,
      (.cleared ∈ b.before → b.found.Closed ∧ (b.found.run b.call).fault = none)
        ∧ (.cleared ∈ b.before ++ events (b.found.trace b.call) →
          (b.found.run b.call).after.Closed)
  := by
  use ?moments, ?begun
  case moments =>
    intro before after hevents
    have path := path_trace.2.1 t calls
    rw [hevents] at path
    use ?merged, ?closed
    case merged =>
      obtain ⟨t₁, -, hcleared⟩ := path.split
      cases hcleared with
      | cons _ rest => apply (t₁.closed_clear.path rest).2
    case closed =>
      rintro during later rfl
      rw [← List.cons_append, ← List.append_assoc] at path
      obtain ⟨t', hbefore, hlater⟩ := path.split
      use t', hbefore, hlater
      apply hbefore.closed
      simp
  case begun =>
    intro b hb
    have path := path_begun.2.1 t calls b hb
    refine ⟨?comes, ?goes⟩
    case comes =>
      intro h
      have closed := path.closed h
      use closed, closed.fault_run b.call
    case goes =>
      intro h
      apply (path.append (path_trace.1 b.found b.call)).closed h

/-- While a payload is merged two producers arrive, and at the first poll of the second the table is
cleared; then comes another one. -/
def clearedInside : List Call :=
  let payload (n : UInt64) : Payload := .ofRows [⟨.detail .root, [some (.count n)]⟩]
  [.add (payload 1)
      [.mk [] false, .mk [.add (payload 2) [] false, .add (payload 3) [.mk [.clear] false] false] false]
      false,
    .add (payload 4) [] false]

theorem clear_is_terminal_clearedInside :
  let fresh := ofPlan ⟨1, none, some 0, []⟩ none .unbounded
  ∃ before after, events (fresh.traceAll clearedInside) = before ++ .cleared :: after
    ∧ (merges before).length = 1
    ∧ (∀ payload fault, .merged payload fault ∉ after)
    ∧ (fresh.runAll clearedInside).1.Closed
  := by
  have whole (seen : List Event)
      (h : (seen[8]?.map fun event => event matches .cleared) = some true) :
      seen = seen.take 8 ++ .cleared :: seen.drop 9 := by
    obtain ⟨event, hevent, hcleared⟩ := Option.map_eq_some_iff.mp h
    obtain ⟨hlength, hget⟩ := List.getElem?_eq_some_iff.mp hevent
    obtain rfl : event = .cleared := by
      cases event <;> first | rfl | contradiction
    rw [← hget, ← List.drop_eq_getElem_cons, List.take_append_drop]
  intro fresh
  have hmerges : (merges ((events (fresh.traceAll clearedInside)).take 8)).length = 1 := by
    decide +kernel
  have hwhole := whole (events (fresh.traceAll clearedInside)) (by decide +kernel)
  obtain ⟨hmerged, hclosed⟩ := (clear_is_terminal fresh clearedInside).1 _ _ hwhole
  obtain ⟨t', -, hlater, closed⟩ := hclosed [] _ (List.nil_append _).symm
  exact ⟨_, _, hwhole, hmerges, hmerged, (closed.path hlater).1⟩

end Table

end Collate
