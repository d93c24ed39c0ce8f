import Mathlib.Algebra.Order.BigOperators.Group.List
import Mathlib.Algebra.Order.Group.Nat
import Collate.Eviction
import Collate.Proofs.Pacing

/-!
# Tasks that share a clock

What events do to a scheduler they do to each of its tasks alone: neither the other tasks nor those
that are registered later change the runs of a task.  So every task on a scheduler keeps the pace of
a task by itself, and each of its runs is executed once.

A scheduler that is shut down goes on until its tasks have come to their ends.  Once all of them
have stopped, `Scheduler.Stopped`, nothing is run any more.
-/

namespace Collate

namespace Scheduler

variable {σ : Type}

/-- What an event makes of a scheduler, and the runs of each task that it leads to. -/
def perform (s : Scheduler σ) : Happening σ → Scheduler σ × List (List Run)
  | .register spec state draws => (s.register spec state draws, [])
  | .pass passage milliseconds => s.advance passage milliseconds
  | .act index f =>
    ({ s with tasks := s.tasks.modify index fun t => { t with state := f t.state } }, [])

/-- The scheduler after events. -/
def after (s : Scheduler σ) (events : List (Happening σ)) : Scheduler σ :=
  events.foldl (fun s event => (s.perform event).1) s

/-- Events, each with the runs of one task that it leads to. -/
def history (s : Scheduler σ) (index : Nat) : List (Happening σ) → List (Happening σ × List Run)
  | [] => []
  | event :: events =>
    (event, (s.perform event).2.getD index []) :: (s.perform event).1.history index events

/-- The runs of one task. -/
def runsOf (s : Scheduler σ) (index : Nat) (events : List (Happening σ)) : List Run :=
  (s.history index events).flatMap (·.2)

variable {s : Scheduler σ} {index : Nat} {t : Task σ}

/-- Nothing starts or ends the shutting down but a shutdown. -/
theorem stopping_perform (s : Scheduler σ) (event : Happening σ) :
  (s.perform event).1.stopping = s.stopping
  := by
  match event with
  | .register .. =>
      rw [perform, register]
      split <;> rfl
  | .pass .. | .act .. => rfl

/-- An event does to each task what it does to the task alone. -/
theorem perform_eq (has : s.tasks[index]? = some t) (event : Happening σ) :
  (s.perform event).1.tasks[index]? = some (t.perform index s.stopping s.now event).1
    ∧ (s.perform event).1.now = s.now + event.elapsed
    ∧ (s.perform event).2.getD index [] = (t.perform index s.stopping s.now event).2
  := by
  match event with
  | .register spec state draws =>
      rw [perform, register]
      split
      · exact ⟨has, rfl, rfl⟩
      · refine ⟨?_, rfl, rfl⟩
        rw [List.getElem?_append_left (List.getElem?_eq_some_iff.mp has).1]
        apply has
  | .pass passage milliseconds =>
      refine ⟨?_, rfl, ?_⟩
      · rw [perform, advance, List.getElem?_map, List.getElem?_map, has]
        rfl
      · rw [perform, advance, List.getD_eq_getElem?_getD, List.getElem?_map, List.getElem?_map, has]
        rfl
  | .act index' f =>
      refine ⟨?_, rfl, rfl⟩
      simp only [perform, Task.perform, Happening.alter, List.getElem?_modify, has]
      split <;> rfl

theorem history_eq (has : s.tasks[index]? = some t) (events : List (Happening σ)) :
  s.history index events = t.history index s.stopping s.now events
    ∧ (s.after events).tasks[index]? = some (t.after index s.stopping s.now events)
  := by
  induction events generalizing s t with
  | nil => exact ⟨rfl, has⟩
  | cons event events ih =>
      obtain ⟨hhas, hnow, hruns⟩ := perform_eq has event
      obtain ⟨hhistory, hafter⟩ := ih hhas
      rw [stopping_perform, hnow] at hhistory hafter
      exact ⟨by rw [history, Task.history, hruns, hhistory], hafter⟩

theorem has_register (running : s.stopping = false) (spec : TaskSpec σ) (state : σ)
    (draws : Nat → Bool) :
  (s.register spec state draws).tasks[s.tasks.length]? = some (.fresh spec state draws)
    ∧ (s.register spec state draws).stopping = false
    ∧ (s.register spec state draws).now = s.now
  := by
  rw [register, if_neg (by simp [running])]
  exact ⟨List.getElem?_concat_length .., running, rfl⟩

/-! ### Shutting down -/

/-- All tasks have come to their ends without a panic. -/
def Stopped (s : Scheduler σ) : Prop :=
  s.stopping = true ∧ ∀ t ∈ s.tasks, t.phase = .stopped

/-- Waiting for tasks ends without an error when all of them have stopped. -/
theorem joinAll?_eq_ok_iff (tasks : List (Task σ)) :
  joinAll? tasks = some (.ok ()) ↔ ∀ t ∈ tasks, t.phase = .stopped
  := by
  induction tasks with
  | nil => simp [joinAll?]
  | cons t tasks ih =>
      rw [joinAll?, List.forall_mem_cons]
      cases t.phase <;> simp [ih]

/-- Shutting down returns without an error when all tasks have stopped. -/
theorem joined?_eq_ok_iff (s : Scheduler σ) :
  s.joined? = some (.ok ()) ↔ s.Stopped
  := by
  rw [joined?, Stopped, ← joinAll?_eq_ok_iff]
  split
  next stopping => simp [stopping]
  next stopping => simp [stopping]

namespace Stopped

/-- A task that has stopped is not run, and nobody starts it again. -/
theorem perform (stopped : s.Stopped) (event : Happening σ) :
  (s.perform event).1.Stopped ∧ ∀ index, (s.perform event).2.getD index [] = []
  := by
  obtain ⟨stopping, hphase⟩ := stopped
  have hstopping := (s.stopping_perform event).trans stopping
  match event with
  | .register spec state draws =>
      have hregister : s.register spec state draws = s := by rw [register, if_pos stopping]
      rw [Scheduler.perform, hregister]
      exact ⟨⟨stopping, hphase⟩, fun _ => rfl⟩
  | .act index f =>
      refine ⟨⟨hstopping, ?_⟩, fun _ => rfl⟩
      intro t ht
      obtain ⟨index', hindex⟩ := List.getElem?_of_mem ht
      simp only [Scheduler.perform, List.getElem?_modify] at hindex
      obtain ⟨t', ht', rfl⟩ := Option.map_eq_some_iff.mp hindex
      have hstopped := hphase t' (List.mem_of_getElem? ht')
      by_cases hequal : index = index'
      · rw [if_pos hequal]
        apply hstopped
      · rw [if_neg hequal]
        apply hstopped
  | .pass passage milliseconds =>
      have hsettle (later now : Nat) : ∀ t ∈ s.tasks, t.settle s.stopping later now = (t, []) := by
        intro t ht
        apply Task.settle_of_none
        rw [hphase t ht]
        rfl
      constructor
      · use hstopping
        simp only [Scheduler.perform, advance, List.map_map, List.forall_mem_map,
          Function.comp_apply]
        intro t ht
        rw [hsettle _ _ t ht]
        apply hphase t ht
      · intro index
        simp only [Scheduler.perform, advance, List.getD_eq_getElem?_getD, List.getElem?_map]
        cases hindex : s.tasks[index]? with
        | none => rfl
        | some t =>
            simp only [Option.map_some, Option.getD_some]
            rw [hsettle _ _ t (List.mem_of_getElem? hindex)]

theorem runsOf_eq_nil (stopped : s.Stopped) (index : Nat) (events : List (Happening σ)) :
  s.runsOf index events = []
  := by
  induction events generalizing s with
  | nil => rfl
  | cons event events ih =>
      obtain ⟨hstopped, hnone⟩ := stopped.perform event
      rw [runsOf, history, List.flatMap_cons, hnone, List.nil_append]
      apply ih hstopped

end Stopped

end Scheduler

/-- A task in this phase is not waited for any more. -/
def Phase.IsOver {interval : Nat} : Phase interval → Prop
  | .stopped | .panicked => True
  | .spawned | .waiting _ | .running .. => False

/-- A task that was told to stop does so when its run is over, unless it prefers its timer. -/
theorem Task.isOver_settle {σ : Type} {t : Task σ} {now later : Nat} (h : now ≤ later)
    (obedient : ∀ count, t.draws count = false)
    (brief : ∀ finish ∈ t.phase.finish?, finish ≤ later) :
  (t.settle true later now).1.phase.IsOver
  := by
  revert h obedient brief
  apply settle_induction (P := fun now t outcome => now ≤ later → (∀ count, t.draws count = false) →
    (∀ finish ∈ t.phase.finish?, finish ≤ later) → outcome.1.phase.IsOver)
  case rest =>
    intro now t late h obedient brief
    cases ht : t.phase with
    | spawned | waiting ticker =>
        rw [ht] at late
        exact absurd (late now rfl) (Nat.not_lt.mpr h)
    | running ticker finish outcome =>
        rw [ht] at late brief
        exact absurd (late _ rfl) (Nat.not_lt.mpr (Nat.max_le.mpr ⟨h, brief finish rfl⟩))
    | stopped | panicked => trivial
  case step =>
    intro now time t t' runs hwake early ih h obedient brief
    obtain ⟨-, -, hstep⟩ | ⟨_, -, -, -, -, hdraw⟩ | ⟨_, -, -, -, hstep⟩
      | ⟨_, _, outcome, -, -, hstep⟩ := step_cases hwake
    · rw [hstep] at ih
      apply ih early obedient
      change ∀ finish ∈ (Phase.begun t.spec.interval time).finish?, _
      rw [Phase.begun]
      split <;> rintro _ ⟨⟩
    · have hdraw := hdraw rfl
      rw [obedient] at hdraw
      contradiction
    · rw [hstep] at ih
      apply ih early obedient
      rintro _ ⟨⟩
    · rw [hstep] at ih
      apply ih early obedient
      cases outcome <;> rintro _ ⟨⟩

namespace Scheduler

variable {σ : Type}

theorem joinAll?_isSome {tasks : List (Task σ)} (h : ∀ t ∈ tasks, t.phase.IsOver) :
  (joinAll? tasks).isSome = true
  := by
  induction tasks with
  | nil => rfl
  | cons t tasks ih =>
      obtain ⟨hfinish, hrest⟩ := List.forall_mem_cons.mp h
      rw [joinAll?]
      cases ht : t.phase with
      | stopped => apply ih hrest
      | panicked => rfl
      | spawned | waiting _ | running _ _ _ =>
          rw [ht] at hfinish
          contradiction

/-- Shutting down returns, if no task prefers its timer to the signal. -/
theorem exists_joined? {s : Scheduler σ} (stopping : s.stopping = true)
    (obedient : ∀ t ∈ s.tasks, ∀ count, t.draws count = false) :
  ∃ milliseconds, (s.advance .smooth milliseconds).1.joined?.isSome = true
  := by
  let remaining := (s.tasks.map fun t => t.phase.finish?.getD 0).sum
  have hremaining : ∀ t ∈ s.tasks, ∀ finish ∈ t.phase.finish?, finish ≤ s.now + remaining := by
    intro t ht finish hfinish
    have hle : t.phase.finish?.getD 0 ≤ remaining :=
      List.single_le_sum (fun _ _ => Nat.zero_le _) _ (List.mem_map_of_mem ht)
    rw [Option.mem_def.mp hfinish, Option.getD_some] at hle
    omega
  use remaining
  have hstopping : (s.advance .smooth remaining).1.stopping = true := stopping
  rw [joined?, if_pos hstopping]
  apply joinAll?_isSome
  simp only [advance, List.map_map, List.forall_mem_map, Function.comp_apply]
  intro t ht
  rw [stopping]
  apply t.isOver_settle (Nat.le_add_right ..) (obedient t ht) (hremaining t ht)

end Scheduler

/-! ### Sweeps -/

namespace TaskSpec.Replays

variable {σ : Type} {interval index : Nat} {sweep : Nat → σ → Sweep σ} {c c' : σ}
  {history : List (Happening σ × List Run)}

/-- A sweep that panics does not end the eviction task. -/
theorem unharmed (h : (evictionTask interval sweep).Replays index c history c') :
  ∀ run ∈ history.flatMap (·.2), run.outcome ≠ .panicked
  := by
  intro run hrun hpanicked
  obtain ⟨c, -, houtcome⟩ := h.exists_execution run hrun
  rw [hpanicked] at houtcome
  simp only [evictionTask] at houtcome
  split at houtcome <;> contradiction

/-- Each run of the eviction task is one sweep at the time of the run. -/
theorem sweeps (h : (evictionTask interval sweep).Replays index c history c')
    (alone : ∀ step ∈ history, ∀ c, step.1.alter index c = c) :
  c' = ((history.flatMap (·.2)).map (·.time)).foldl (fun c time => (sweep time c).state) c
  := by
  rw [(h.executes alone).foldl_eq, List.foldl_map]
  rfl

end TaskSpec.Replays

/-! ### Runs of a task on a scheduler -/

namespace Scheduler

variable {σ : Type}

/-- A task is run once an interval at most, whatever the clock, the other tasks and those who use
what it works on do: its runs are numbered from one on, a jump leads to one of them, and they keep
their distance, but for the tolerance.  If the clock only moves smoothly, no run takes longer than
the interval and none panics, there is a run at every multiple of the interval.  Each run is one
execution of the task, and each run of an eviction task is one sweep, none of which ends the task.
When the scheduler was shut down and this returns without an error, nothing is run any more; and it
does return if no task prefers its timer to the signal. -/
theorem runs_are_paced (s : Scheduler σ) (running : s.stopping = false) (spec : TaskSpec σ)
    (positive : 0 < spec.interval) (state : σ) (draws : Nat → Bool) (events : List (Happening σ)) :
  let index := s.tasks.length
  let registered := s.register spec state draws
  let history := registered.history index events
  let runs := registered.runsOf index events
  let last := registered.after events
  runs.map (·.id) = (List.range' 1 runs.length).map UInt64.ofNat
    ∧ (∀ time, runs.countP (·.time ≤ s.now + time) ≤ time / spec.interval)
    ∧ runs.length ≤ elapsed events / spec.interval
    ∧ ((∀ event ∈ events, event.IsSmooth) → (∀ run ∈ runs, run.Fits spec.interval) →
        runs.map (·.time) = (List.range' 1 (elapsed events / spec.interval)).map
          (s.now + · * spec.interval))
    ∧ (Ticker.tolerance < spec.interval →
        ∀ step ∈ history, ¬ step.1.IsSmooth → step.2.length ≤ 1)
    ∧ (runs.IsChain fun a b => a.time + spec.interval ≤ b.time + Ticker.tolerance)
    ∧ (∃ t, last.tasks[index]? = some t ∧ spec.Replays index state history t.state
        ∧ ∀ sweep, spec = evictionTask spec.interval sweep →
          (∀ run ∈ runs, run.outcome ≠ .panicked)
            ∧ (∀ count : σ → Nat, (∀ now c, count (sweep now c).state = count c + 1) →
              (∀ event ∈ events, ∀ c, count (event.alter index c) = count c) →
              count t.state = count state + runs.length)
            ∧ ((∀ event ∈ events, ∀ c, event.alter index c = c) →
              t.state = (runs.map (·.time)).foldl (fun c time => (sweep time c).state) state))
    ∧ (∀ meanwhile, (last.shutdown.after meanwhile).joined? = some (.ok ()) →
        ∀ index later, (last.shutdown.after meanwhile).runsOf index later = [])
    ∧ ((∀ t ∈ last.tasks, ∀ count, t.draws count = false) →
        ∃ milliseconds, (last.shutdown.advance .smooth milliseconds).1.joined?.isSome = true)
  := by
  intro index registered history runs last
  obtain ⟨has, hstopping, hnow⟩ := has_register running spec state draws
  obtain ⟨hhistory, hlast⟩ := history_eq has events
  rw [hstopping, hnow] at hhistory hlast
  have hruns : runs = (Task.fresh spec state draws).runsOf index false s.now events := by
    simp only [runs, runsOf, Task.runsOf, registered, index, hhistory]
  have hevents : history.map (·.1) = events := by
    simp only [history, registered, index, hhistory]
    apply Task.map_history
  have series := Task.series_fresh spec state draws index false s.now events
  rw [← hruns] at series
  obtain ⟨t, ht, replays⟩ : ∃ t, last.tasks[index]? = some t
      ∧ spec.Replays index state history t.state := by
    refine ⟨_, hlast, ?_⟩
    simp only [history, registered, index, hhistory]
    exact (Task.fresh spec state draws).replays index false s.now events
  refine ⟨series.map_id, ?counted, ?bounded, ?exactly, ?jumps, series.spaced, ?executed, ?stopped,
    ?returned⟩
  case counted =>
    rw [hruns]
    apply Task.countP_fresh spec state draws index false s.now events positive
  case bounded =>
    rw [hruns]
    apply Task.length_fresh spec state draws index false s.now events positive
  case exactly =>
    rw [hruns]
    apply Task.times_fresh spec state draws index s.now events positive
  case jumps =>
    intro long
    simp only [history, registered, index, hhistory]
    apply Task.length_of_jump long
  case executed =>
    refine ⟨t, ht, replays, ?_⟩
    intro sweep hspec
    rw [hspec] at replays
    refine ⟨replays.unharmed, ?_, ?_⟩
    · intro count raised kept
      apply replays.count_eq count (fun _ => raised)
      intro step hstep
      apply kept
      rw [← hevents]
      apply List.mem_map_of_mem hstep
    · intro alone
      apply replays.sweeps
      intro step hstep
      apply alone
      rw [← hevents]
      apply List.mem_map_of_mem hstep
  case stopped =>
    intro meanwhile hjoined index later
    apply Stopped.runsOf_eq_nil
    rwa [← joined?_eq_ok_iff]
  case returned =>
    intro obedient
    exact exists_joined? (s := last.shutdown) rfl obedient

/-- The eviction task of a cache beside a slow one: on a clock that jumps, while someone uses the
cache, on one that does not jump, and when the scheduler is shut down. -/
theorem runs_are_paced_evictions :
  let config := (CacheConfig.default.withEvictionInterval 10).withTimeToIdle 15
  let cache := SearchCache.ofConfig Shelf.library config
  let sweep := SearchCache.sweep fun _ (_ : SearchCache Shelf.library) => 2
  let slow : TaskSpec (SearchCache Shelf.library) := ⟨"slow", 7, fun _ _ c => ⟨c, 20, .done⟩⟩
  let s := Scheduler.empty.register slow cache fun _ => false
  let registered := config.scheduleEviction sweep cache (fun _ => false) s
  let forget : Happening (SearchCache Shelf.library) :=
    .act 1 fun c => c.remove 28 (.ofQuery ⟨"guests"⟩)
  let events := [.pass .smooth 0, .pass .jump 28, .register slow cache fun _ => true, forget,
    .pass .smooth 22]
  let runs := registered.runsOf 1 events
  let smooth := [.pass .smooth 25, .pass .smooth 20]
  let last := registered.after smooth
  runs.map (·.time) = [28, 38, 48]
    ∧ runs.map (·.id) = (List.range' 1 runs.length).map UInt64.ofNat
    ∧ runs.countP (·.time ≤ 0 + 30) ≤ 30 / 10
    ∧ runs.length ≤ 50 / 10
    ∧ (∀ step ∈ registered.history 1 events, ¬ step.1.IsSmooth → step.2.length ≤ 1)
    ∧ (runs.IsChain fun a b => a.time + 10 ≤ b.time + 5)
    ∧ (∀ run ∈ runs, run.outcome ≠ .panicked)
    ∧ (registered.runsOf 1 smooth).map (·.time) = [10, 20, 30, 40]
    ∧ (∃ t, last.tasks[1]? = some t ∧ t.state = [10, 20, 30, 40].foldl SearchCache.evict cache)
    ∧ (last.shutdown.after [.pass .smooth 30]).runsOf 0 smooth = []
  := by
  intro config cache sweep slow s registered forget events runs smooth last
  let spec := evictionTask 10 sweep
  obtain ⟨hids, hcount, hbound, -, hjumps, hspaced, ⟨_, -, -, hsweeps⟩, -⟩ :=
    runs_are_paced s rfl spec (by decide) cache (fun _ => false) events
  obtain ⟨-, -, -, hexact, -, -, ⟨t, ht, -, hsmooth⟩, hstopped, -⟩ :=
    runs_are_paced s rfl spec (by decide) cache (fun _ => false) smooth
  have htimes : (registered.runsOf 1 smooth).map (·.time) = [10, 20, 30, 40] :=
    (hexact (by decide) (by decide +kernel)).trans (by decide)
  have halone : ∀ event ∈ smooth, ∀ c, event.alter 1 c = c :=
    List.forall_mem_cons.mpr ⟨fun _ => rfl, List.forall_mem_singleton.mpr fun _ => rfl⟩
  refine ⟨by decide +kernel, hids, hcount 30, hbound, hjumps (by decide), hspaced,
    (hsweeps sweep rfl).1, htimes, ⟨t, ht, ?_⟩, hstopped [.pass .smooth 30] ?_ 0 smooth⟩
  · have hfolded := (hsmooth sweep rfl).2.2 halone
    exact hfolded.trans (congrArg (List.foldl (fun c time => (sweep time c).state) cache) htimes)
  · decide +kernel

/-- On a clock that does not jump a task whose runs do not fit into its interval is run less often
than the interval would have it, and so is one that panics.  Beside one that panicked, a task may be
run once more when shutting down has returned. -/
theorem runs_missed_slowOrBroken :
  let slow : TaskSpec Unit := ⟨"slow", 10, fun _ _ s => ⟨s, 25, .done⟩⟩
  let frail : TaskSpec Unit :=
    ⟨"frail", 10, fun context _ s => ⟨s, 0, if context.runId = 1 then .panicked else .done⟩⟩
  let events := [.pass .smooth 40]
  let s := (Scheduler.empty.register frail () fun _ => true).register slow () fun _ => true
  let last := (s.after [.pass .smooth 20]).shutdown
  (∀ event ∈ events, event.IsSmooth)
    ∧ (s.runsOf 0 events).map (·.time) = [10]
    ∧ (s.runsOf 1 events).map (·.time) = [10, 35]
    ∧ (s.runsOf 0 events).length ≠ elapsed events / frail.interval
    ∧ (s.runsOf 1 events).length ≠ elapsed events / slow.interval
    ∧ last.joined? = some (.error (.invalidState .taskPanicked))
    ∧ (last.runsOf 1 [.pass .smooth 20]).map (·.time) = [35]
  := by
  decide +kernel

end Scheduler

end Collate
