import Collate.Proofs.Producer.Clearing
import Collate.Proofs.Routing

/-!
# Stores whose search was stopped

A store that was destroyed stays destroyed: whatever is done with it, its signal is raised, its
search is over, its tables hold nothing and merge nothing, and every response says for each table
asked for that there is none.  A store of which only the signal was raised shows no more of its
tables either and merges nothing, but the tables keep what they hold.
-/

namespace Collate

namespace Table

/-- A table that is neither merged with a payload nor cleared changes in nothing but its queue and
its gate. -/
theorem Path.eq_withQueue {t t' : Table} {events : List Event} (path : Path t events t')
    (unmerged : ∀ payload fault, .merged payload fault ∉ events) (uncleared : .cleared ∉ events) :
  ∃ pending gate, t' = t.withQueue pending gate
  := by
  induction path with
  | nil t => exact ⟨t.pending, t.gate, rfl⟩
  | @cons t t' event events _ _ ih =>
      simp only [List.mem_cons, not_or] at unmerged uncleared
      obtain ⟨pending, gate, rfl⟩ := ih (fun payload fault => (unmerged payload fault).2) uncleared.2
      obtain rfl | ⟨payload, fault, rfl⟩ | ⟨pending', gate', hact⟩ := t.act_cases event
      · exact absurd rfl uncleared.1
      · exact absurd rfl (unmerged payload fault).1
      · exact ⟨pending, gate, by rw [hact]; rfl⟩

/-- Clearing a closed table changes nothing. -/
theorem Closed.clear_eq {t : Table} (closed : t.Closed) :
  t.clear = t
  := by
  obtain ⟨plan, maxResults, storeSize, total, pending, gate, cleared, retained, snapshot⟩ := t
  obtain ⟨⟨rfl, rfl, rfl, rfl⟩, rfl⟩ := closed
  rfl

/-- Whoever finds the signal raised drops what waits, and the payload with it. -/
theorem add_of_raised (t : Table) (payload : Payload) :
  t.add payload true = (t.discard, none)
    ∧ events (t.trace (.add payload [] true)) = [.asked t.busy, .arrived payload true]
  := by
  have hresume : t.resume (.arriving payload) true = (t.discard, none, none) := rfl
  constructor
  · simp only [add, run, runPolls, settle_eq, hresume, Step.after, Step.fault]
  · simp only [trace, tracePolls, traceSettle_eq, hresume]
    rfl

end Table

namespace SearchStore

/-- What may be done to a store, whether or not its search goes on. -/
inductive Command where
  | perform (action : Action)
  /-- Raises the termination signal, and does no more. -/
  | terminate
  | destroy

namespace Action

/-- The highlights that were set, in order. -/
def highlighted (actions : List Action) : List (List String) :=
  actions.filterMap fun
    | .highlight highlights => some highlights
    | _ => none

end Action

/-- The actions among some commands. -/
def Command.actions (commands : List Command) : List Action :=
  commands.filterMap fun
    | .perform action => some action
    | _ => none

/-- The store after a command. -/
def execute (s : SearchStore) : Command → SearchStore
  | .perform action => s.perform action
  | .terminate => s.terminate.1
  | .destroy => s.destroy

/-- The store after commands that are executed one after the other. -/
def executeAll (s : SearchStore) (commands : List Command) : SearchStore :=
  commands.foldl execute s

/-- What happens to the table of a component when a command is executed. -/
def happens (s : SearchStore) (component : String) (t : Table) : Command → List Event
  | .perform (.add c payload) =>
    if c = component then Table.events (t.trace (.add payload [] s.signal.raised)) else []
  | .destroy => [.cleared]
  | _ => []

/-- What happens to the table of a component when commands are executed one after the other. -/
def happened (s : SearchStore) (component : String) : List Command → List Event
  | [] => []
  | command :: rest =>
    ((s.table? component).map (s.happens component · command)).getD []
      ++ (s.execute command).happened component rest

/-! ### Following a table -/

theorem table?_destroy (s : SearchStore) (component : String) :
  s.destroy.table? component = (s.table? component).map Table.clear
  := by
  obtain ⟨key, signal, tables, errors, highlights, complete⟩ := s
  simp only [destroy, table?]
  induction tables with
  | nil => rfl
  | cons entry tables ih =>
      rw [List.map_cons, List.lookup_cons, List.lookup_cons, ih]
      cases component == entry.1 <;> rfl

section

variable {s : SearchStore} {component : String} {t : Table}

/-- A command makes of a table what happens to it. -/
theorem path_execute (h : s.table? component = some t) (command : Command) :
  ∃ t', (s.execute command).table? component = some t'
    ∧ Table.Path t (s.happens component t command) t'
  := by
  match command with
  | .perform (.add c payload) =>
      rw [execute, perform, table?_addPayload, h, happens]
      by_cases hc : c = component
      · subst hc
        simp only [Option.map_some, if_true]
        exact ⟨_, rfl, Table.path_trace.1 t _⟩
      · simp only [Option.map_some, if_neg hc, if_neg (Ne.symm hc)]
        exact ⟨t, rfl, .nil t⟩
  | .perform (.report _) | .perform (.highlight _) | .perform .finish | .perform .read
  | .terminate => exact ⟨t, h, .nil t⟩
  | .destroy =>
      have enabled : t.Enabled .cleared := trivial
      rw [execute, table?_destroy, h]
      exact ⟨t.clear, rfl, .single enabled⟩

theorem path_executeAll (h : s.table? component = some t) (commands : List Command) :
  ∃ t', (s.executeAll commands).table? component = some t'
    ∧ Table.Path t (s.happened component commands) t'
  := by
  induction commands generalizing s t with
  | nil => exact ⟨t, h, .nil t⟩
  | cons command commands ih =>
      obtain ⟨t₁, ht₁, path⟩ := path_execute h command
      obtain ⟨t', ht', path'⟩ := ih ht₁
      use t', ht'
      rw [happened, h]
      apply path.append path'

/-- A component is known or unknown for good. -/
theorem table?_executeAll_of_none (h : s.table? component = none) (commands : List Command) :
  (s.executeAll commands).table? component = none
  := by
  induction commands generalizing s with
  | nil => apply h
  | cons command commands ih =>
      apply ih (s := s.execute command)
      match command with
      | .perform (.add c payload) => rw [execute, perform, table?_addPayload, h, Option.map_none]
      | .perform (.report _) | .perform (.highlight _) | .perform .finish | .perform .read
      | .terminate => apply h
      | .destroy => rw [execute, table?_destroy, h, Option.map_none]

/-! ### Raised signals -/

theorem raised_execute (raised : s.signal.raised = true) (command : Command) :
  (s.execute command).signal.raised = true
  := by
  match command with
  | .perform (.add c payload) => rw [execute, perform, (tables_addPayload s c payload).2, raised]
  | .perform (.report _) | .perform (.highlight _) | .perform .finish | .perform .read => apply raised
  | .terminate | .destroy => rfl

theorem raised_executeAll (raised : s.signal.raised = true) (commands : List Command) :
  (s.executeAll commands).signal.raised = true
  := by
  induction commands generalizing s with
  | nil => apply raised
  | cons command commands ih => apply ih (raised_execute raised command)

/-- Under a raised signal a table is not touched but to be cleared. -/
theorem happens_of_raised (raised : s.signal.raised = true) (component : String) (t : Table)
    (command : Command) :
  (∀ payload fault, .merged payload fault ∉ s.happens component t command)
    ∧ (.cleared ∈ s.happens component t command → command = .destroy)
  := by
  match command with
  | .perform (.add c payload) =>
      rw [happens, raised, (t.add_of_raised payload).2]
      split <;> simp
  | .perform (.report _) | .perform (.highlight _) | .perform .finish | .perform .read
  | .terminate | .destroy => simp [happens]

theorem happened_of_raised (raised : s.signal.raised = true) (component : String)
    (commands : List Command) :
  (∀ payload fault, .merged payload fault ∉ s.happened component commands)
    ∧ (.cleared ∈ s.happened component commands → .destroy ∈ commands)
  := by
  induction commands generalizing s with
  | nil => simp [happened]
  | cons command commands ih =>
      obtain ⟨hmerged, hcleared⟩ := ih (raised_execute raised command)
      cases htable : s.table? component with
      | none =>
          rw [happened, htable]
          exact ⟨hmerged, fun h => List.mem_cons_of_mem _ (hcleared h)⟩
      | some t =>
          obtain ⟨hmerged', hcleared'⟩ := happens_of_raised raised component t command
          rw [happened, htable, Option.map_some, Option.getD_some]
          simp only [List.mem_append, not_or]
          use fun payload fault => ⟨hmerged' payload fault, hmerged payload fault⟩
          rintro (h | h)
          · rw [hcleared' h]
            apply List.mem_cons_self
          · apply List.mem_cons_of_mem _ (hcleared h)

theorem snapshot?_of_raised (raised : s.signal.raised = true) (component : String) :
  s.snapshot? component = none
  := by
  rw [snapshot?, if_pos raised]

/-- A response under a raised signal holds a message for each component and no result. -/
theorem respond_of_raised (raised : s.signal.raised = true) (request : SearchRequest) :
  s.respond request
    = ⟨[], s.highlights, s.errors ++ request.components.map (missing ·.id), s.complete⟩
  := by
  have hcollect : s.collect request.components
      = ([], request.components.map (missing ·.id)) := by
    simp [collect, snapshot?_of_raised raised]
  rw [respond, hcollect]

theorem fault_addPayload_of_raised (raised : s.signal.raised = true) (component : String)
    (payload : Payload) :
  (s.addPayload component payload).2
    = if (s.table? component).isSome then none else some (.unknownComponent component)
  := by
  rw [fault_addPayload, raised]
  cases s.table? component with
  | none => rfl
  | some t => simp [(t.add_of_raised payload).1]

/-! ### What else a store holds -/

/-- The errors of a store are those reported to it, in order. -/
theorem errors_executeAll (s : SearchStore) (commands : List Command) :
  (s.executeAll commands).errors = s.errors ++ Action.reported (Command.actions commands)
  := by
  induction commands generalizing s with
  | nil => apply (List.append_nil _).symm
  | cons command commands ih =>
      apply (ih (s.execute command)).trans
      match command with
      | .perform (.add c payload) =>
          rw [execute, perform, (same_addPayload s c payload).1]
          rfl
      | .perform (.report error) => apply List.append_assoc
      | .perform (.highlight _) | .perform .finish | .perform .read | .terminate | .destroy => rfl

/-- The highlights of a store are those that were set last. -/
theorem highlights_executeAll (s : SearchStore) (commands : List Command) :
  (s.executeAll commands).highlights
    = (Action.highlighted (Command.actions commands)).getLastD s.highlights
  := by
  induction commands generalizing s with
  | nil => rfl
  | cons command commands ih =>
      apply (ih (s.execute command)).trans
      match command with
      | .perform (.add c payload) =>
          rw [execute, perform, (same_addPayload s c payload).2.1]
          rfl
      | .perform (.highlight highlights) => apply List.getLastD_cons.symm
      | .perform (.report _) | .perform .finish | .perform .read | .terminate | .destroy => rfl

/-- A search is over when it was said to be, or was destroyed. -/
theorem complete_executeAll (s : SearchStore) (commands : List Command) :
  (s.executeAll commands).complete = true
    ↔ s.complete = true ∨ .perform .finish ∈ commands ∨ .destroy ∈ commands
  := by
  induction commands generalizing s with
  | nil => simp [executeAll]
  | cons command commands ih =>
      apply (ih (s.execute command)).trans
      match command with
      | .perform (.add c payload) =>
          rw [execute, perform, (same_addPayload s c payload).2.2]
          simp
      | .perform .finish => simp [execute, perform, finish]
      | .perform (.report _) => simp [execute, perform, addError]
      | .perform (.highlight _) => simp [execute, perform, setHighlights]
      | .perform .read => simp [execute, perform]
      | .terminate => simp [execute, terminate]
      | .destroy => simp [execute, destroy]

end

/-! ### Destroyed stores -/

/-- A store whose signal is raised, whose search is over, and whose tables are closed. -/
structure Destroyed (s : SearchStore) : Prop where
  raised : s.signal.raised = true
  complete : s.complete = true
  closed : ∀ entry ∈ s.tables, entry.2.Closed

/-- Destroying a store once more changes nothing. -/
theorem Destroyed.destroy_eq {s : SearchStore} (destroyed : s.Destroyed) :
  s.destroy = s
  := by
  obtain ⟨key, ⟨raised⟩, tables, errors, highlights, complete⟩ := s
  obtain ⟨rfl, rfl, closed⟩ := destroyed
  have htables : tables.map (fun entry => (entry.1, entry.2.clear)) = tables := by
    conv => rhs; rw [← List.map_id tables]
    apply List.map_congr_left
    intro entry hentry
    rw [(closed entry hentry).clear_eq]
    rfl
  simp only [destroy, Signal.raise, htables]

theorem destroyed_destroy (s : SearchStore) :
  s.destroy.Destroyed
  := by
  refine ⟨rfl, rfl, ?_⟩
  intro entry hentry
  obtain ⟨⟨component, t⟩, -, rfl⟩ := List.mem_map.mp hentry
  apply t.closed_clear

/-- A destroyed store stays destroyed. -/
theorem Destroyed.execute {s : SearchStore} (destroyed : s.Destroyed) (command : Command) :
  (s.execute command).Destroyed
  := by
  refine ⟨raised_execute destroyed.raised command, ?_, ?_⟩
  · apply (complete_executeAll s [command]).mpr
    left
    apply destroyed.complete
  · match command with
    | .perform (.add c payload) =>
        rw [SearchStore.execute, perform, addPayload]
        split
        next => apply destroyed.closed
        next t hsome =>
          have hclosed : t.Closed := destroyed.closed _ (mem_of_table? hsome)
          rw [destroyed.raised, (t.add_of_raised payload).1]
          intro entry hentry
          obtain ⟨⟨component, t'⟩, hmem, rfl⟩ := List.mem_map.mp hentry
          simp only
          split
          · exact ⟨hclosed.toEmptied.withQueue [] t.gate, rfl⟩
          · apply destroyed.closed _ hmem
    | .perform (.report _) | .perform (.highlight _) | .perform .finish | .perform .read
    | .terminate => apply destroyed.closed
    | .destroy => apply (destroyed_destroy s).closed

theorem Destroyed.executeAll {s : SearchStore} (destroyed : s.Destroyed) (commands : List Command) :
  (s.executeAll commands).Destroyed
  := by
  induction commands generalizing s with
  | nil => apply destroyed
  | cons command commands ih => apply ih (destroyed.execute command)

/-- Once a store was destroyed, whatever is done with it leaves its signal raised and its search
over, and destroying it again changes nothing.  It gives no snapshot.  Each of its tables stays
empty and closed, and none of the things that happen to it is a merge.  A payload for a table that
it has is taken without an error, and one for another table is refused.  Its errors and highlights
are what was reported and set, and a response to any request is complete, holds no result, and names
each component of the request as missing behind these errors.  Where only the signal was raised
there are no snapshots and no merges either, but the tables keep what they hold, and the search is
over only if it was or is said to be. -/
theorem destruction_is_final (s : SearchStore) :
  (∀ commands,
    let s' := s.destroy.executeAll commands
    s'.signal.raised = true ∧ s'.complete = true ∧ s'.destroy = s'
      ∧ (∀ component, s'.snapshot? component = none)
      ∧ (∀ component t, s.table? component = some t →
        ∃ t', s'.table? component = some t' ∧ t'.Closed ∧ t'.snapshot = .empty
          ∧ Table.Path t.clear (s.destroy.happened component commands) t'
          ∧ ∀ payload fault, .merged payload fault ∉ s.destroy.happened component commands)
      ∧ (∀ component payload, (s'.addPayload component payload).2
        = if (s.table? component).isSome then none else some (.unknownComponent component))
      ∧ s'.errors = s.errors ++ Action.reported (Command.actions commands)
      ∧ s'.highlights = (Action.highlighted (Command.actions commands)).getLastD s.highlights
      ∧ ∀ request, s'.respond request
        = ⟨[], s'.highlights, s'.errors ++ request.components.map (missing ·.id), true⟩)
    ∧ ∀ commands, .destroy ∉ commands →
      let s' := s.terminate.1.executeAll commands
      s'.signal.raised = true
        ∧ (∀ component, s'.snapshot? component = none)
        ∧ (∀ component t, s.table? component = some t →
          ∃ t', s'.table? component = some t' ∧ t'.snapshot = t.snapshot ∧ t'.total = t.total
            ∧ Table.Path t (s.terminate.1.happened component commands) t'
            ∧ ∀ payload fault, .merged payload fault ∉ s.terminate.1.happened component commands)
        ∧ (s'.complete = true ↔ s.complete = true ∨ .perform .finish ∈ commands)
  := by
  use ?destroyed, ?terminated
  case destroyed =>
    intro commands s'
    have destroyed : s'.Destroyed := s.destroyed_destroy.executeAll commands
    refine ⟨destroyed.raised, destroyed.complete, destroyed.destroy_eq,
      snapshot?_of_raised destroyed.raised, ?tables, ?answers, errors_executeAll _ commands,
      highlights_executeAll _ commands, ?responses⟩
    case tables =>
      intro component t ht
      have hcleared : s.destroy.table? component = some t.clear := by
        rw [table?_destroy, ht, Option.map_some]
      obtain ⟨t', ht', path⟩ := path_executeAll hcleared commands
      obtain ⟨closed, unmerged⟩ := t.closed_clear.path path
      exact ⟨t', ht', closed, closed.snapshot, path, unmerged⟩
    case answers =>
      intro component payload
      have hknown : (s'.table? component).isSome = (s.table? component).isSome := by
        cases ht : s.table? component with
        | none =>
            have hnone : s.destroy.table? component = none := by
              rw [table?_destroy, ht, Option.map_none]
            rw [table?_executeAll_of_none hnone]
        | some t =>
            have hcleared : s.destroy.table? component = some t.clear := by
              rw [table?_destroy, ht, Option.map_some]
            obtain ⟨t', ht', -⟩ := path_executeAll hcleared commands
            rw [ht']
            rfl
      rw [fault_addPayload_of_raised destroyed.raised, hknown]
    case responses =>
      intro request
      rw [respond_of_raised destroyed.raised, destroyed.complete]
  case terminated =>
    intro commands undestroyed s'
    have hraised : s.terminate.1.signal.raised = true := rfl
    have hraised' : s'.signal.raised = true := raised_executeAll hraised commands
    refine ⟨hraised', snapshot?_of_raised hraised', ?tables, ?complete⟩
    case tables =>
      intro component t ht
      obtain ⟨t', ht', path⟩ := path_executeAll (s := s.terminate.1) ht commands
      obtain ⟨unmerged, hcleared⟩ := happened_of_raised hraised component commands
      obtain ⟨pending, gate, hqueue⟩ := path.eq_withQueue unmerged (undestroyed ∘ hcleared)
      use t', ht'
      rw [hqueue] at path ⊢
      exact ⟨rfl, rfl, path, unmerged⟩
    case complete =>
      apply (complete_executeAll s.terminate.1 commands).trans
      simp only [undestroyed, or_false]
      rfl

/-- Two tables are asked of a store that has one of them, after it was destroyed while it held a
row, and after only its signal was raised. -/
theorem destruction_is_final_oneRow :
  let payload : Payload := .ofRows [⟨.detail .root, [some (.count 1)]⟩]
  let table := ((Table.ofPlan ⟨1, none, some 0, []⟩ none .unbounded).add payload false).1
  let s : SearchStore := ⟨⟨"guests"⟩, .lowered, [("left", table)], ["late"], [], false⟩
  let commands : List Command :=
    [.perform (.add "left" payload), .perform (.report "lost"), .terminate,
      .perform (.highlight ["a", "b"]), .perform .read]
  table.snapshot.size = 1
    ∧ (s.destroy.executeAll (commands ++ [.destroy])).respond guests
      = ⟨[], ["a", "b"], ["late", "lost", "No data found for component left",
          "No data found for component right"], true⟩
    ∧ ((s.destroy.executeAll commands).addPayload "left" payload).2 = none
    ∧ ((s.destroy.executeAll commands).addPayload "right" payload).2
      = some (.unknownComponent "right")
    ∧ .destroy ∉ commands
    ∧ ∃ t', (s.terminate.1.executeAll commands).table? "left" = some t'
      ∧ t'.snapshot.size = 1
      ∧ (s.terminate.1.executeAll commands).complete ≠ true
  := by
  intro payload table s commands
  have hsize : table.snapshot.size = 1 := by decide +kernel
  have undestroyed : .destroy ∉ commands := by simp [commands]
  have htable : s.table? "left" = some table := rfl
  obtain ⟨destroyed, terminated⟩ := destruction_is_final s
  obtain ⟨-, -, -, -, -, hanswers, -⟩ := destroyed commands
  obtain ⟨-, -, -, -, -, -, herrors, hhighlights, hresponses⟩ := destroyed (commands ++ [.destroy])
  obtain ⟨-, -, htables, hcomplete⟩ := terminated commands undestroyed
  obtain ⟨t', ht', hsnapshot, -⟩ := htables "left" table htable
  refine ⟨hsize, ?_, hanswers "left" payload, hanswers "right" payload, undestroyed, t', ht', ?_, ?_⟩
  · rw [hresponses, herrors, hhighlights]
    rfl
  · rw [hsnapshot, hsize]
  · rw [ne_eq, hcomplete]
    simp [s, commands]

end SearchStore

end Collate
