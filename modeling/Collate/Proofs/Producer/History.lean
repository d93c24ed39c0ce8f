import Collate.Proofs.Producer.Linear

/-!
# Tables that are reached

Whatever producers do, a table that nobody has cleared comes from an empty one by merging payloads
that were brought to it, one after the other, and a table that was cleared is empty.  Hence what
holds of empty tables and outlasts every merge holds at every moment of every run.
-/

namespace Collate

/-- The payloads that a producer still brings. -/
def Stage.brings : Stage → List Payload
  | .arriving payload => [payload]
  | .merged | .released => []

namespace Table

/-- A cleared table, which holds nothing. -/
structure Emptied (t : Table) : Prop where
  cleared : t.cleared = true
  total : t.total = 0
  retained : t.retained = []
  snapshot : t.snapshot = .empty

theorem emptied_clear (t : Table) :
  t.clear.Emptied
  := ⟨rfl, rfl, rfl, rfl⟩

theorem Emptied.withQueue {t : Table} (emptied : t.Emptied) (pending : List Payload)
    (gate : Gate) :
  (t.withQueue pending gate).Emptied
  := ⟨emptied.cleared, emptied.total, emptied.retained, emptied.snapshot⟩

/-- Apart from being merged with a payload or cleared, a table changes in nothing but its queue and
its gate. -/
theorem act_cases (t : Table) (event : Event) :
  event = .cleared ∨ (∃ payload fault, event = .merged payload fault)
    ∨ ∃ pending gate, t.act event = t.withQueue pending gate
  := by
  cases event with
  | cleared => exact .inl rfl
  | merged payload fault => exact .inr (.inl ⟨payload, fault, rfl⟩)
  | asked => exact .inr (.inr ⟨t.pending, t.gate, rfl⟩)
  | arrived payload raised =>
      right
      right
      rw [act]
      split
      · exact ⟨[], t.gate, rfl⟩
      · exact ⟨t.pending ++ [payload], t.gate, rfl⟩
  | answered raised =>
      right
      right
      cases raised with
      | true => exact ⟨[], t.gate, rfl⟩
      | false => exact ⟨t.pending, t.gate, rfl⟩
  | acquired => exact .inr (.inr ⟨t.pending, ⟨true⟩, rfl⟩)
  | skipped => exact .inr (.inr ⟨t.pending.tail, t.gate, rfl⟩)
  | released => exact .inr (.inr ⟨t.pending, .free, rfl⟩)

/-- A cleared table stays empty. -/
theorem Emptied.act {t : Table} {event : Event} (emptied : t.Emptied)
    (enabled : t.Enabled event) :
  (t.act event).Emptied
  := by
  obtain rfl | ⟨payload, fault, rfl⟩ | ⟨pending, gate, hact⟩ := t.act_cases event
  · apply emptied_clear
  · obtain ⟨-, huncleared, -⟩ := enabled
    rw [emptied.cleared] at huncleared
    contradiction
  · rw [hact]
    apply emptied.withQueue

theorem Emptied.path {t t' : Table} {events : List Event} (emptied : t.Emptied)
    (path : Path t events t') :
  t'.Emptied
  := by
  induction path with
  | nil => apply emptied
  | cons enabled _ ih => apply ih (emptied.act enabled)

/-- Once it was cleared, a table is empty. -/
theorem Path.emptied {t t' : Table} {events : List Event} (path : Path t events t')
    (h : .cleared ∈ events) :
  t'.Emptied
  := by
  induction path with
  | nil => contradiction
  | @cons t t' event events enabled rest ih =>
      obtain rfl | h := List.mem_cons.mp h
      · apply (emptied_clear t).path rest
      · apply ih h

/-- The payloads that were merged, or refused with an error, in their order. -/
def merges (events : List Event) : List (Payload × Option Error) :=
  events.filterMap Event.merge?

/-- The payloads that were brought. -/
def arrivals (events : List Event) : List Payload :=
  events.filterMap Event.arrival?

/-- A producer brings its payload at once. -/
theorem brings_of_resume {t t' : Table} {stage stage' : Stage} {raised : Bool}
    {fault : Option Error} (h : t.resume stage raised = (t', some stage', fault)) :
  stage'.brings = []
  := by
  have hproceed (t : Table) : t.proceed.2.1.brings = [] := by
    rw [proceed]
    split
    · rfl
    · split <;> rfl
  have henter {t : Table} (h : t.enter = (t', some stage', fault)) : stage'.brings = [] := by
    rw [enter] at h
    split at h
    · simp at h
    next gate _ =>
      obtain ⟨-, rfl, -⟩ := by simpa only [Prod.mk.injEq, Option.some.injEq] using h
      apply hproceed
  cases stage with
  | arriving payload =>
      rw [resume] at h
      split at h
      · simp at h
      · apply henter h
  | merged =>
      obtain ⟨-, rfl, -⟩ := by simpa only [resume_merged, Prod.mk.injEq, Option.some.injEq] using h
      apply hproceed
  | released =>
      rw [resume] at h
      split at h
      · simp at h
      · apply henter h

/-- What a producer causes once its signal has answered brings what the producer still had. -/
theorem arrivals_resumed (t : Table) (stage : Stage) (raised : Bool) :
  arrivals (t.resumed stage raised) = stage.brings
  := by
  obtain ⟨events, hevents, hgate⟩ := t.resumed_eq stage raised
  have hnone : events.filterMap Event.arrival? = [] := by
    rw [List.filterMap_eq_nil_iff]
    intro event hevent
    have := hgate event hevent
    cases event <;> first | rfl | contradiction
  rw [hevents, arrivals, List.filterMap_cons, hnone]
  cases stage <;> rfl

/-- While no other producer arrives, a producer brings its payload alone. -/
theorem arrivals_tracePolls (t : Table) (stage : Stage) (rest : Bool) :
  arrivals (events (t.tracePolls stage rest [])) = stage.brings
  := by
  suffices key : ∀ polls, polls = [] →
      arrivals (events (t.tracePolls stage rest polls)) = stage.brings from key [] rfl
  intro polls
  induction t, stage, rest, polls using polls_induction with
  | poll t stage rest polls ih =>
      rintro rfl
      rcases h : (t.runAll (Poll.next rest []).calls).1.resume stage (Poll.next rest []).raised
        with ⟨t', _ | stage', fault⟩
      · rw [tracePolls_of_returns h, ← arrivals_resumed t stage rest, events_cons, events_append,
          events_own]
        rfl
      · have hrest := ih _ _ _ h rfl
        rw [tracePolls_of_proceeds h, events_cons, events_append, events_append, events_own]
        rw [arrivals] at hrest ⊢
        rw [List.filterMap_cons, List.filterMap_append, List.filterMap_append, hrest,
          brings_of_resume h, ← arrivals_resumed t stage rest, List.append_nil]
        rfl

variable {plan : Plan} {maxResults : Option Sizes} {storeSize : Sizes} {events : List Event}
  {t : Table}

/-- A table that was never cleared has merged one payload after the other. -/
theorem Path.eq_feed (path : Path (ofPlan plan maxResults storeSize) events t)
    (h : .cleared ∉ events) :
  let fed := (ofPlan plan maxResults storeSize).feed ((merges events).map (·.1))
  t = fed.1.withQueue t.pending t.gate
    ∧ fed.2 = (merges events).map (·.2)
    ∧ ((merges events).map (·.1)).Sublist (arrivals events)
  := by
  have hidle := idle_ofPlan plan maxResults storeSize
  have haccounts := accounts_start (ofPlan plan maxResults storeSize)
  rw [← hidle.eq_withQueue] at haccounts
  obtain ⟨hafter, hsettled⟩ := haccounts.path hidle path h
  have hmerges : (events.foldl Ledger.record (.ofWaiting [])).settled = merges events := by
    apply hsettled.trans
    rw [Ledger.settled_ofWaiting, List.nil_append]
    rfl
  rw [← hmerges]
  use hafter.merged, hafter.faults
  have hsublist := (events.foldl Ledger.record (.ofWaiting [])).settled_sublist
  rw [Ledger.map_fst_foldl_record] at hsublist
  apply hsublist

theorem Idle.feed_induction {P : Table → Prop} {payloads : List Payload} (idle : t.Idle)
    (start : P t) (merge : ∀ t payload, payload ∈ payloads → P t → P (t.merge payload).1) :
  P (t.feed payloads).1
  := by
  induction payloads generalizing t with
  | nil => apply start
  | cons payload payloads ih =>
      rw [idle.feed_cons]
      apply ih (idle.merge payload)
      · apply merge t payload List.mem_cons_self start
      · intro t payload hpayload
        apply merge t payload (List.mem_cons_of_mem _ hpayload)

/-- What holds of empty tables and outlasts merges holds of all tables that are reached.  Of a table
that was cleared nothing needs to be known but that it is empty. -/
theorem Path.invariant {P : Table → Prop}
    (path : Path (ofPlan plan maxResults storeSize) events t)
    (start : P (ofPlan plan maxResults storeSize)) (emptied : ∀ t, t.Emptied → P t)
    (queue : ∀ t pending gate, P t → P (t.withQueue pending gate))
    (merge : ∀ t payload, payload ∈ arrivals events → P t → P (t.merge payload).1) :
  P t
  := by
  by_cases h : .cleared ∈ events
  · apply emptied t (path.emptied h)
  · obtain ⟨heq, -, hsublist⟩ := path.eq_feed h
    rw [heq]
    apply queue
    apply (idle_ofPlan plan maxResults storeSize).feed_induction start
    intro t payload hpayload
    apply merge t payload (hsublist.subset hpayload)

/-- What outlasts merges outlasts everything but that a table is cleared. -/
theorem Path.preserves {P : Table → Prop} {t t' : Table} {events : List Event}
    (path : Path t events t') (h : .cleared ∉ events) (start : P t)
    (queue : ∀ t pending gate, P t → P (t.withQueue pending gate))
    (merge : ∀ t payload, P t → P (t.merge payload).1) :
  P t'
  := by
  induction path with
  | nil => apply start
  | @cons t t' event events _ _ ih =>
      rw [List.mem_cons, not_or] at h
      apply ih h.2
      obtain rfl | ⟨payload, fault, rfl⟩ | ⟨pending, gate, hact⟩ := t.act_cases event
      · exact absurd rfl h.1
      · apply merge
        apply queue t t.pending.tail t.gate start
      · rw [hact]
        apply queue t pending gate start

theorem plan_act (t : Table) (event : Event) :
  (t.act event).plan = t.plan ∧ (t.act event).storeSize = t.storeSize
  := by
  obtain rfl | ⟨payload, fault, rfl⟩ | ⟨pending, gate, hact⟩ := t.act_cases event
  · exact ⟨rfl, rfl⟩
  · exact ⟨plan_merge _ _, storeSize_merge _ _⟩
  · rw [hact]
    exact ⟨rfl, rfl⟩

/-- A table keeps its plan and its sizes. -/
theorem Path.plan_eq {start : Table} (path : Path start events t) :
  t.plan = start.plan ∧ t.storeSize = start.storeSize
  := by
  induction path with
  | nil => exact ⟨rfl, rfl⟩
  | @cons start t event events enabled _ ih =>
      rw [ih.1, ih.2]
      apply plan_act

end Table

end Collate
