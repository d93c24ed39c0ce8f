import Collate.Error

/-!
# Schedules

A `Scheduler` runs tasks at intervals on a clock that counts milliseconds.  The clock moves
either smoothly, so that everything happens at its own time, or in a jump, so that whatever was
due in between happens at its end.  A timer that is seen more than `Ticker.tolerance` late goes off
next a whole interval after that; otherwise its deadlines stay where they were.

A task sets its timer when it is first looked at, and is run when the timer has gone off; the next
look at the timer is behind the run.  When the scheduler is shut down, each task stops at the next
look, unless its timer has gone off as well and happens to be preferred.
-/

namespace Collate

/-- How a run of a task ends. -/
inductive Outcome where
  | done
  | failed (fault : Error)
  | panicked
  deriving DecidableEq, Repr

/-- What a task is told about a run of it. -/
structure Context where
  taskName : String
  runId : UInt64
  deriving DecidableEq, Repr

/-- What comes of a run that works on a `σ`. -/
structure Execution (σ : Type) where
  state : σ
  duration : Nat
  outcome : Outcome

/-- A task to be run at intervals, which works on a `σ`. -/
structure TaskSpec (σ : Type) where
  name : String
  interval : Nat
  /-- Runs the task at a time. -/
  execute (context : Context) (now : Nat) (s : σ) : Execution σ

/-- One run of a task: its name, the number of the run, when it started, how long it took and how it
ended. -/
structure Run where
  name : String
  id : UInt64
  time : Nat
  duration : Nat
  outcome : Outcome
  deriving DecidableEq, Repr

/-- How the clock moves. -/
inductive Passage where
  | smooth
  | jump
  deriving DecidableEq, Repr

/-- The first time at which something can happen while the clock moves. -/
def Passage.start (now later : Nat) : Passage → Nat
  | .smooth => now
  | .jump => later

/-- A timer of an interval, which is not zero. -/
structure Ticker (interval : Nat) where
  /-- When it goes off. -/
  due : Nat
  positive : 0 < interval

namespace Ticker

variable {interval : Nat}

/-- How late a timer may be seen without moving the deadlines behind it. -/
def tolerance : Nat := 5

/-- A timer that is set, first due after one interval.  There is none without an interval. -/
def create? (interval now : Nat) : Option (Ticker interval) :=
  if positive : 0 < interval then some ⟨now + interval, positive⟩ else none

/-- The timer when it is seen at `time` that it has gone off. -/
def tick (ticker : Ticker interval) (time : Nat) : Ticker interval :=
  { ticker with
    due := if ticker.due + tolerance < time then time + interval else ticker.due + interval }

theorem due_lt_due_tick (ticker : Ticker interval) (time : Nat) :
  ticker.due < (ticker.tick time).due
  := by
  have positive := ticker.positive
  rw [tick]
  split <;> simp only <;> omega

end Ticker

/-- How far a task has come. -/
inductive Phase (interval : Nat) where
  /-- The task was not looked at since it was registered. -/
  | spawned
  | waiting (ticker : Ticker interval)
  /-- A run is over at a time, with an outcome. -/
  | running (ticker : Ticker interval) (finish : Nat) (outcome : Outcome)
  | stopped
  | panicked

namespace Phase

variable {interval : Nat}

/-- The phase of a task that is first looked at.  It panics if no timer can be set. -/
def begun (interval now : Nat) : Phase interval :=
  match Ticker.create? interval now with
  | none => .panicked
  | some ticker => .waiting ticker

/-- The phase behind a run.  Only a panic keeps the task from going on. -/
def behind (ticker : Ticker interval) : Outcome → Phase interval
  | .panicked => .panicked
  | .done | .failed _ => .waiting ticker

/-- When the run that goes on in a phase is over. -/
def finish? : Phase interval → Option Nat
  | .running _ finish _ => some finish
  | .spawned | .waiting _ | .stopped | .panicked => none

/-- When something next happens in a phase, on a clock that shows `now`. -/
def wake? (stopping : Bool) (now : Nat) : Phase interval → Option Nat
  | .spawned => some now
  | .waiting ticker => some (if stopping then now else max now ticker.due)
  | .running _ finish _ => some (max now finish)
  | .stopped | .panicked => none

/-- A bound on what can still happen until the clock shows `later`. -/
def effort (later : Nat) : Phase interval → Nat
  | .spawned => 2 * (later + 1) + 2
  | .waiting ticker => 2 * (later + 1 - ticker.due) + 1
  | .running ticker _ _ => 2 * (later + 1 - ticker.due) + 2
  | .stopped | .panicked => 0

end Phase

/-- A task on a schedule. -/
structure Task (σ : Type) where
  spec : TaskSpec σ
  state : σ
  /-- Behind which numbers of runs a timer that has gone off is preferred to the signal to stop. -/
  draws : Nat → Bool
  /-- How many runs there have been. -/
  runs : Nat
  phase : Phase spec.interval

namespace Task

variable {σ : Type}

/-- A task that was just registered. -/
def fresh (spec : TaskSpec σ) (state : σ) (draws : Nat → Bool) : Task σ :=
  ⟨spec, state, draws, 0, .spawned⟩

/-- The task in another phase. -/
def enter (t : Task σ) (phase : Phase t.spec.interval) : Task σ :=
  { t with phase }

/-- Starts a run at `time`, when the timer was seen to have gone off. -/
def start (t : Task σ) (ticker : Ticker t.spec.interval) (time : Nat) : Task σ × Run :=
  let id := UInt64.ofNat (t.runs + 1)
  let execution := t.spec.execute ⟨t.spec.name, id⟩ time t.state
  ({ t with
      state := execution.state
      runs := t.runs + 1
      phase := .running (ticker.tick time) (time + execution.duration) execution.outcome },
    ⟨t.spec.name, id, time, execution.duration, execution.outcome⟩)

/-- What happens to a task at `time`: the timer is set, or seen to have gone off, or the signal to
stop is seen, or a run is over. -/
def step (stopping : Bool) (time : Nat) (t : Task σ) : Task σ × List Run :=
  match t.phase with
  | .spawned => (t.enter (.begun t.spec.interval time), [])
  | .waiting ticker =>
    if ticker.due ≤ time ∧ (stopping → t.draws t.runs) then
      ((t.start ticker time).1, [(t.start ticker time).2])
    else if stopping then (t.enter .stopped, [])
    else (t, [])
  | .running ticker finish outcome =>
    if time < finish then (t, []) else (t.enter (.behind ticker outcome), [])
  | .stopped | .panicked => (t, [])

/-- What happens at the time at which something next does. -/
theorem step_cases {stopping : Bool} {now time : Nat} {t : Task σ}
    (h : t.phase.wake? stopping now = some time) :
  (t.phase = .spawned ∧ time = now
      ∧ t.step stopping time = (t.enter (.begun t.spec.interval time), []))
    ∨ (∃ ticker, t.phase = .waiting ticker ∧ ticker.due ≤ time
      ∧ time = (if stopping then now else max now ticker.due)
      ∧ t.step stopping time = ((t.start ticker time).1, [(t.start ticker time).2])
      ∧ (stopping → t.draws t.runs))
    ∨ (∃ ticker, t.phase = .waiting ticker ∧ stopping = true ∧ time = now
      ∧ t.step stopping time = (t.enter .stopped, []))
    ∨ ∃ ticker finish outcome, t.phase = .running ticker finish outcome ∧ time = max now finish
      ∧ t.step stopping time = (t.enter (.behind ticker outcome), [])
  := by
  cases hphase : t.phase with
  | spawned =>
      rw [hphase, Phase.wake?, Option.some_inj] at h
      left
      refine ⟨rfl, h.symm, ?_⟩
      rw [step, hphase]
  | waiting ticker =>
      rw [hphase, Phase.wake?, Option.some_inj] at h
      right
      by_cases hrun : ticker.due ≤ time ∧ (stopping → t.draws t.runs)
      · left
        refine ⟨ticker, rfl, hrun.1, h.symm, ?_, hrun.2⟩
        rw [step, hphase]
        apply if_pos hrun
      · right
        left
        cases stopping with
        | true =>
            refine ⟨ticker, rfl, rfl, h.symm, ?_⟩
            rw [step, hphase]
            apply if_neg hrun
        | false =>
            have hdue : ticker.due ≤ time := by
              rw [← h]
              apply Nat.le_max_right
            exact absurd ⟨hdue, nofun⟩ hrun
  | running ticker finish outcome =>
      rw [hphase, Phase.wake?, Option.some_inj] at h
      right
      right
      right
      refine ⟨ticker, finish, outcome, rfl, h.symm, ?_⟩
      have hfinish : ¬ time < finish := by
        rw [← h, Nat.not_lt]
        apply Nat.le_max_right
      rw [step, hphase]
      apply if_neg hfinish
  | stopped | panicked =>
      rw [hphase] at h
      contradiction

/-- Whatever happens, less can happen behind it. -/
theorem effort_step_lt {stopping : Bool} {now time later : Nat} {t : Task σ}
    (h : t.phase.wake? stopping now = some time) (hle : time ≤ later) :
  (t.step stopping time).1.phase.effort later < t.phase.effort later
  := by
  obtain ⟨hphase, -, hstep⟩ | ⟨ticker, hphase, hdue, -, hstep, -⟩ | ⟨ticker, hphase, -, -, hstep⟩
    | ⟨ticker, finish, outcome, hphase, -, hstep⟩ := step_cases h
  all_goals rw [hstep, hphase]
  · have hbegun : (Phase.begun t.spec.interval time).effort later < 2 * (later + 1) + 2 := by
      rw [Phase.begun, Ticker.create?]
      split <;> simp only [Phase.effort] <;> omega
    apply hbegun
  · have hdue' := ticker.due_lt_due_tick time
    simp only [start, Phase.effort]
    omega
  · apply Nat.succ_pos
  · cases outcome <;> simp only [enter, Phase.behind, Phase.effort] <;> omega

/-- The runs of a task while the clock moves on from `now` until it shows `later`. -/
def settle (stopping : Bool) (later now : Nat) (t : Task σ) : Task σ × List Run :=
  match _next : t.phase.wake? stopping now with
  | none => (t, [])
  | some time =>
    if _early : time ≤ later then
      let stepped := t.step stopping time
      let settled := stepped.1.settle stopping later time
      (settled.1, stepped.2 ++ settled.2)
    else (t, [])
termination_by t.phase.effort later
decreasing_by apply effort_step_lt _next _early

end Task

/-- Tasks on one clock. -/
structure Scheduler (σ : Type) where
  now : Nat
  tasks : List (Task σ)
  /-- Whether the tasks were told to stop. -/
  stopping : Bool

namespace Scheduler

variable {σ : Type}

/-- A scheduler without tasks, at time zero. -/
def empty : Scheduler σ := ⟨0, [], false⟩

/-- There is no scheduler where there is nothing to run tasks on. -/
def withoutRuntime : Except Error (Scheduler σ) :=
  .error (.invalidState .noRuntime)

/-- Adds a task and what it works on, unless the scheduler was shut down. -/
def register (s : Scheduler σ) (spec : TaskSpec σ) (state : σ) (draws : Nat → Bool) : Scheduler σ :=
  if s.stopping then s else { s with tasks := s.tasks ++ [.fresh spec state draws] }

def taskCount (s : Scheduler σ) : Nat :=
  s.tasks.length

/-- Moves the clock, and gives the runs of each task. -/
def advance (s : Scheduler σ) (passage : Passage) (milliseconds : Nat) :
    Scheduler σ × List (List Run) :=
  let later := s.now + milliseconds
  let outcomes := s.tasks.map (Task.settle s.stopping later (passage.start s.now later))
  ({ s with now := later, tasks := outcomes.map (·.1) }, outcomes.map (·.2))

/-- Tells all tasks to stop. -/
def shutdown (s : Scheduler σ) : Scheduler σ :=
  { s with stopping := true }

/-- What waiting for tasks one after the other gives, if it is over: an error as soon as it comes to
a task that panicked. -/
def joinAll? : List (Task σ) → Option (Except Error Unit)
  | [] => some (.ok ())
  | t :: tasks =>
    match t.phase with
    | .stopped => joinAll? tasks
    | .panicked => some (.error (.invalidState .taskPanicked))
    | .spawned | .waiting _ | .running .. => none

/-- What shutting down gives, when it returns. -/
def joined? (s : Scheduler σ) : Option (Except Error Unit) :=
  if s.stopping then joinAll? s.tasks else none

end Scheduler

end Collate
