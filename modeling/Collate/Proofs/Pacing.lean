import Mathlib.Data.List.Chain
import Mathlib.Tactic.SplitIfs
import Mathlib.Tactic.Use
import Collate.Schedule

/-!
# The pace of a task

However the clock moves, a task is not run more often than its interval allows: a run that comes
late puts off those behind it, and is not made up for.  On a clock that only moves smoothly a task
whose runs fit into its interval is run at every multiple of it, for as long as it does not panic.

The bounds rest on one thing, that no run starts before the timer has gone off, which is what
`Series` says.  That a run is over in time for the next, `Task.Regular`, is needed only where runs
are promised.  What runs do, `TaskSpec.Executes`, does not depend on when they start.
-/

namespace Collate

/-- What may happen to a scheduler that goes on. -/
inductive Happening (σ : Type) where
  | register (spec : TaskSpec σ) (state : σ) (draws : Nat → Bool)
  | pass (passage : Passage) (milliseconds : Nat)
  /-- Someone else uses what the task of an index works on. -/
  | act (index : Nat) (f : σ → σ)

variable {σ : Type}

namespace Happening

/-- How far an event moves the clock. -/
def elapsed : Happening σ → Nat
  | .pass _ milliseconds => milliseconds
  | .register .. | .act .. => 0

/-- The clock does not jump. -/
def IsSmooth : Happening σ → Prop
  | .pass .jump _ => False
  | .pass .smooth _ | .register .. | .act .. => True

instance (event : Happening σ) : Decidable event.IsSmooth :=
  match event with
  | .pass .jump _ => .isFalse id
  | .pass .smooth _ | .register .. | .act .. => .isTrue trivial

/-- What others make of what the task of an index works on. -/
def alter (index : Nat) : Happening σ → σ → σ
  | .act index' f, s => if index' = index then f s else s
  | .register .. , s | .pass .., s => s

end Happening

/-- How far events move the clock. -/
def elapsed : List (Happening σ) → Nat
  | [] => 0
  | event :: events => event.elapsed + elapsed events

/-- Runs of a task one after the other, each of which leads from one state to the next, takes the
time and has the outcome that executing the task gives. -/
inductive TaskSpec.Executes (spec : TaskSpec σ) : σ → List Run → σ → Prop
  | nil (s : σ) : Executes spec s [] s
  | cons {s s' : σ} {state : σ} {run : Run} {runs : List Run} (name : run.name = spec.name)
      (execution : spec.execute ⟨spec.name, run.id⟩ run.time s = ⟨state, run.duration, run.outcome⟩)
      (rest : Executes spec state runs s') : Executes spec s (run :: runs) s'

/-- Events, each with the runs of a task that it leads to, when others may use what the task works
on. -/
inductive TaskSpec.Replays (spec : TaskSpec σ) (index : Nat) :
    σ → List (Happening σ × List Run) → σ → Prop
  | nil (s : σ) : Replays spec index s [] s
  | cons {s s' s'' : σ} {event : Happening σ} {runs : List Run}
      {history : List (Happening σ × List Run)}
      (executes : spec.Executes (event.alter index s) runs s')
      (rest : Replays spec index s' history s'') :
      Replays spec index s ((event, runs) :: history) s''

namespace Task

/-- What an event does to a task that is there already, on a clock that shows `now`. -/
def perform (t : Task σ) (index : Nat) (stopping : Bool) (now : Nat) :
    Happening σ → Task σ × List Run
  | .register .. => (t, [])
  | .pass passage milliseconds =>
    t.settle stopping (now + milliseconds) (passage.start now (now + milliseconds))
  | .act index' f => ({ t with state := (Happening.act index' f).alter index t.state }, [])

/-- Events, each with the runs that it leads to. -/
def history (t : Task σ) (index : Nat) (stopping : Bool) (now : Nat) :
    List (Happening σ) → List (Happening σ × List Run)
  | [] => []
  | event :: events =>
    (event, (t.perform index stopping now event).2)
      :: (t.perform index stopping now event).1.history index stopping (now + event.elapsed) events

/-- The task after events. -/
def after (t : Task σ) (index : Nat) (stopping : Bool) (now : Nat) : List (Happening σ) → Task σ
  | [] => t
  | event :: events =>
    (t.perform index stopping now event).1.after index stopping (now + event.elapsed) events

/-- The runs that events lead to. -/
def runsOf (t : Task σ) (index : Nat) (stopping : Bool) (now : Nat) (events : List (Happening σ)) :
    List Run :=
  (t.history index stopping now events).flatMap (·.2)

theorem runsOf_cons (t : Task σ) (index : Nat) (stopping : Bool) (now : Nat) (event : Happening σ)
    (events : List (Happening σ)) :
  t.runsOf index stopping now (event :: events)
    = (t.perform index stopping now event).2
      ++ (t.perform index stopping now event).1.runsOf index stopping (now + event.elapsed) events
  := List.flatMap_cons

end Task

/-! ### Deadlines -/

namespace Ticker

variable {interval : Nat}

/-- Deadlines are put off by an interval at least. -/
theorem due_add_interval_le (ticker : Ticker interval) (time : Nat) :
  ticker.due + interval ≤ (ticker.tick time).due
  := by
  rw [tick]
  split <;> simp only <;> omega

/-- The next deadline is an interval away, but for a timer that was seen only a little late. -/
theorem time_add_interval_le (ticker : Ticker interval) (time : Nat) :
  time + interval ≤ (ticker.tick time).due + tolerance
  := by
  rw [tick]
  split <;> simp only <;> omega

/-- A timer that is seen in time goes off next an interval later. -/
theorem due_tick_due (ticker : Ticker interval) :
  (ticker.tick ticker.due).due = ticker.due + interval
  := by
  rw [tick, if_neg (by omega)]

end Ticker

/-- The time before which no run starts, unless there will be none at all. -/
def Phase.due? {interval : Nat} (now : Nat) : Phase interval → Option Nat
  | .spawned => some (now + interval)
  | .waiting ticker | .running ticker _ _ => some ticker.due
  | .stopped | .panicked => none

/-- Runs that follow on one another: none starts before it is due, they are numbered on, and each
puts the next one off. -/
inductive Series (interval : Nat) : Option Nat → Nat → List Run → Prop
  | nil (due? : Option Nat) (count : Nat) : Series interval due? count []
  | cons {due count : Nat} {next? : Option Nat} {run : Run} {runs : List Run}
      (ready : due ≤ run.time) (number : run.id = UInt64.ofNat (count + 1))
      (later : ∀ next ∈ next?, due + interval ≤ next
        ∧ run.time + interval ≤ next + Ticker.tolerance)
      (rest : Series interval next? (count + 1) runs) :
      Series interval (some due) count (run :: runs)

namespace Series

variable {interval : Nat} {due? next? : Option Nat} {count start : Nat} {runs : List Run}

/-- Runs that are not due before a time are not due before an earlier one. -/
theorem mono (series : Series interval next? count runs)
    (h : ∀ next ∈ next?, ∃ due ∈ due?, due ≤ next) :
  Series interval due? count runs
  := by
  cases series with
  | nil => apply nil
  | @cons next _ next? run runs ready number later rest =>
      obtain ⟨due, rfl, hle⟩ := h next rfl
      apply cons (hle.trans ready) number _ rest
      intro next' hnext
      obtain ⟨hdue, htime⟩ := later next' hnext
      exact ⟨by omega, htime⟩

/-- Runs are numbered on. -/
theorem map_id (series : Series interval due? count runs) :
  runs.map (·.id) = (List.range' (count + 1) runs.length).map UInt64.ofNat
  := by
  induction series with
  | nil => rfl
  | cons _ number _ _ ih =>
      rw [List.map_cons, List.length_cons, List.range'_succ, List.map_cons, number, ih]

/-- Of runs that are due at multiples of the interval there are no more in a time than it has
intervals. -/
theorem countP_le (series : Series interval due? count runs) (positive : 0 < interval)
    (hdue : ∀ due ∈ due?, start + (count + 1) * interval ≤ due) (elapsed : Nat) :
  runs.countP (·.time ≤ start + elapsed) + count ≤ max count (elapsed / interval)
  := by
  induction series with
  | nil =>
      rw [List.countP_nil, Nat.zero_add]
      apply Nat.le_max_left
  | @cons due count next? run runs ready _ later _ ih =>
      have hfirst := hdue due rfl
      have hmul : (count + 1 + 1) * interval = (count + 1) * interval + interval := Nat.succ_mul ..
      have hrest : runs.countP (·.time ≤ start + elapsed) + (count + 1)
          ≤ max (count + 1) (elapsed / interval) := by
        apply ih
        intro next hnext
        have hnext := (later next hnext).1
        omega
      rw [List.countP_cons]
      split
      next htime =>
        have hcount : count + 1 ≤ elapsed / interval := by
          have hle := of_decide_eq_true htime
          rw [Nat.le_div_iff_mul_le positive]
          omega
        omega
      next => omega

/-- A run that follows on another starts an interval later, or a little earlier. -/
theorem spaced (series : Series interval due? count runs) :
  runs.IsChain fun a b => a.time + interval ≤ b.time + Ticker.tolerance
  := by
  induction series with
  | nil => apply List.IsChain.nil
  | @cons _ _ _ run _ _ _ later rest ih =>
      rw [List.isChain_cons]
      refine ⟨?_, ih⟩
      intro run' hrun'
      cases rest with
      | nil => simp at hrun'
      | @cons due _ _ run'' _ ready =>
          obtain rfl : run'' = run' := Option.some_inj.mp hrun'
          have htime := (later due rfl).2
          omega

end Series

namespace Task

variable {t : Task σ} {stopping : Bool} {now time later index : Nat}

/-- A history has the events that were to happen. -/
theorem map_history (t : Task σ) (index : Nat) (stopping : Bool) (now : Nat)
    (events : List (Happening σ)) :
  (t.history index stopping now events).map (·.1) = events
  := by
  induction events generalizing t now with
  | nil => rfl
  | cons event events ih => rw [history, List.map_cons, ih]

/-! ### What happens while the clock moves -/

/-- Nothing happens before the time that the clock shows. -/
theorem le_of_wake? (h : t.phase.wake? stopping now = some time) :
  now ≤ time
  := by
  obtain ⟨-, rfl, -⟩ | ⟨_, -, -, rfl, -⟩ | ⟨_, -, -, rfl, -⟩ | ⟨_, _, _, -, rfl, -⟩ := step_cases h
  · apply Nat.le_refl
  · split
    · apply Nat.le_refl
    · apply Nat.le_max_left
  · apply Nat.le_refl
  · apply Nat.le_max_left

theorem settle_of_none (h : t.phase.wake? stopping now = none) (later : Nat) :
  t.settle stopping later now = (t, [])
  := by
  rw [settle]
  split
  next => rfl
  next hsome =>
    rw [h] at hsome
    contradiction

theorem settle_of_gt (h : t.phase.wake? stopping now = some time) (late : ¬ time ≤ later) :
  t.settle stopping later now = (t, [])
  := by
  rw [settle]
  split
  next => rfl
  next hsome =>
    obtain rfl := Option.some_inj.mp (h.symm.trans hsome)
    apply dif_neg late

theorem settle_of_le (h : t.phase.wake? stopping now = some time) (early : time ≤ later) :
  t.settle stopping later now
    = (((t.step stopping time).1.settle stopping later time).1,
      (t.step stopping time).2 ++ ((t.step stopping time).1.settle stopping later time).2)
  := by
  rw [settle]
  split
  next hnone =>
    rw [h] at hnone
    contradiction
  next hsome =>
    obtain rfl := Option.some_inj.mp (h.symm.trans hsome)
    apply dif_pos early

/-- What each thing that happens preserves, and what is so when nothing happens any more, is so of
what happens while the clock moves. -/
theorem settle_induction {P : Nat → Task σ → Task σ × List Run → Prop} (stopping : Bool)
    (later : Nat)
    (rest : ∀ now t, (∀ time, t.phase.wake? stopping now = some time → later < time) →
      P now t (t, []))
    (step : ∀ now time t t' runs, t.phase.wake? stopping now = some time → time ≤ later →
      P time (t.step stopping time).1 (t', runs) →
      P now t (t', (t.step stopping time).2 ++ runs))
    (now : Nat) (t : Task σ) :
  P now t (t.settle stopping later now)
  := by
  induction now, t using settle.induct stopping later with
  | case1 now t h =>
      rw [settle_of_none h]
      apply rest
      intro time h'
      rw [h] at h'
      contradiction
  | case2 now t time h early _ ih =>
      rw [settle_of_le h early]
      exact step now time t _ _ h early ih
  | case3 now t time h late =>
      rw [settle_of_gt h late]
      apply rest
      intro time' h'
      obtain rfl := Option.some_inj.mp (h.symm.trans h')
      omega

/-- No time passes for the worse: what is not due before `now` is not due before an earlier time. -/
theorem due?_mono {interval : Nat} {phase : Phase interval} (h : now ≤ later) :
  ∀ next ∈ phase.due? later, ∃ due ∈ phase.due? now, due ≤ next
  := by
  cases phase with
  | spawned =>
      rintro next ⟨⟩
      exact ⟨now + interval, rfl, Nat.add_le_add_right h interval⟩
  | waiting ticker | running ticker _ _ =>
      rintro next ⟨⟩
      exact ⟨ticker.due, rfl, Nat.le_refl _⟩
  | stopped | panicked => rintro _ ⟨⟩

/-- A timer is not set to go off before an interval is over. -/
theorem due?_begun (interval now : Nat) :
  ∀ next ∈ (Phase.begun interval now).due? now, next = now + interval
  := by
  rw [Phase.begun, Ticker.create?]
  split
  · rintro _ ⟨⟩
  next positive =>
    split at positive
    · rintro next ⟨⟩
      obtain rfl := Option.some_inj.mp positive
      rfl
    · contradiction

/-- What happens to a task at a time, and the series of runs that follows on it. -/
theorem series_step (h : t.phase.wake? stopping now = some time) {runs : List Run}
    (rest : Series t.spec.interval ((t.step stopping time).1.phase.due? time)
      (t.step stopping time).1.runs runs) :
  Series t.spec.interval (t.phase.due? now) t.runs ((t.step stopping time).2 ++ runs)
  := by
  obtain ⟨hphase, rfl, hstep⟩ | ⟨ticker, hphase, hdue, -, hstep, -⟩
    | ⟨ticker, hphase, -, -, hstep⟩ | ⟨ticker, finish, outcome, hphase, -, hstep⟩ := step_cases h
  all_goals
    rw [hstep] at rest ⊢
    rw [hphase]
  · apply rest.mono
    intro next hnext
    exact ⟨_, rfl, (due?_begun _ _ next hnext).ge⟩
  · apply Series.cons hdue rfl _ rest
    rintro next ⟨⟩
    exact ⟨ticker.due_add_interval_le time, ticker.time_add_interval_le time⟩
  · apply rest.mono
    rintro _ ⟨⟩
  · apply rest.mono
    cases outcome with
    | panicked => rintro _ ⟨⟩
    | done | failed _ =>
        rintro next ⟨⟩
        exact ⟨ticker.due, rfl, Nat.le_refl _⟩

theorem spec_step (stopping : Bool) (time : Nat) (t : Task σ) :
  (t.step stopping time).1.spec = t.spec
  := by
  rw [step]
  split
  · rfl
  · split_ifs <;> rfl
  · split_ifs <;> rfl
  · rfl
  · rfl

theorem spec_settle (stopping : Bool) (later now : Nat) (t : Task σ) :
  (t.settle stopping later now).1.spec = t.spec
  := by
  apply settle_induction (P := fun _ t outcome => outcome.1.spec = t.spec)
  case rest =>
    intro now t _
    rfl
  case step =>
    intro now time t t' runs _ _ hspec
    rw [← spec_step stopping time t]
    apply hspec

/-- However the clock moves, the runs that it leads to make a series with those that follow. -/
theorem series_settle (h : now ≤ later) (stopping : Bool) (t : Task σ) {runs : List Run}
    (rest : Series t.spec.interval ((t.settle stopping later now).1.phase.due? later)
      (t.settle stopping later now).1.runs runs) :
  Series t.spec.interval (t.phase.due? now) t.runs ((t.settle stopping later now).2 ++ runs)
  := by
  revert h rest
  apply settle_induction (P := fun now t outcome => now ≤ later →
    Series t.spec.interval (outcome.1.phase.due? later) outcome.1.runs runs →
      Series t.spec.interval (t.phase.due? now) t.runs (outcome.2 ++ runs))
  case rest =>
    intro now t _ h rest
    apply rest.mono (due?_mono h)
  case step =>
    intro now time t t' runs' h early ih _ rest
    rw [List.append_assoc]
    apply series_step h
    rw [← spec_step stopping time t] at rest ⊢
    apply ih early rest

/-- No run starts later than the clock shows. -/
theorem time_le_of_settle (stopping : Bool) (later now : Nat) (t : Task σ) :
  ∀ run ∈ (t.settle stopping later now).2, now ≤ run.time ∧ run.time ≤ later
  := by
  apply settle_induction (P := fun now _ outcome =>
    ∀ run ∈ outcome.2, now ≤ run.time ∧ run.time ≤ later)
  case rest =>
    intro now t _
    apply List.forall_mem_nil
  case step =>
    intro now time t t' runs h early ih
    have hle := le_of_wake? h
    rw [List.forall_mem_append]
    constructor
    · obtain ⟨-, -, hstep⟩ | ⟨ticker, -, -, -, hstep, -⟩ | ⟨ticker, -, -, -, hstep⟩
        | ⟨ticker, finish, outcome, -, -, hstep⟩ := step_cases h
      all_goals rw [hstep]
      · apply List.forall_mem_nil
      · rw [List.forall_mem_singleton]
        exact ⟨hle, early⟩
      · apply List.forall_mem_nil
      · apply List.forall_mem_nil
    · intro run hrun
      obtain ⟨hfirst, hlast⟩ := ih run hrun
      exact ⟨hle.trans hfirst, hlast⟩

/-- A run puts the next one off beyond the jump in which it starts. -/
theorem length_settle_jump (long : Ticker.tolerance < t.spec.interval) (stopping : Bool)
    (later : Nat) :
  (t.settle stopping later later).2.length ≤ 1
  := by
  have series := series_settle (Nat.le_refl later) stopping t (Series.nil _ _)
  rw [List.append_nil] at series
  have spaced := series.spaced
  have htime := time_le_of_settle stopping later later t
  match hruns : (t.settle stopping later later).2 with
  | [] | [_] => simp
  | a :: b :: runs =>
      rw [hruns] at spaced htime
      have hdistance := (List.isChain_cons_cons.mp spaced).1
      have hfirst := (htime a (by simp)).1
      have hsecond := (htime b (by simp)).2
      omega

/-! ### What runs do -/

end Task

namespace TaskSpec.Executes

variable {spec : TaskSpec σ} {s s' s'' : σ} {runs runs' : List Run}

theorem append (h : spec.Executes s runs s') (h' : spec.Executes s' runs' s'') :
  spec.Executes s (runs ++ runs') s''
  := by
  induction h with
  | nil => apply h'
  | cons name execution _ ih => apply cons name execution (ih h')

/-- What a run takes and how it ends is what executing the task in some state gives. -/
theorem exists_execution (h : spec.Executes s runs s') :
  ∀ run ∈ runs, ∃ s, (spec.execute ⟨spec.name, run.id⟩ run.time s).duration = run.duration
    ∧ (spec.execute ⟨spec.name, run.id⟩ run.time s).outcome = run.outcome
  := by
  induction h with
  | nil => apply List.forall_mem_nil
  | @cons s _ _ run _ _ execution _ ih =>
      rw [List.forall_mem_cons]
      refine ⟨⟨s, ?_⟩, ih⟩
      rw [execution]
      exact ⟨rfl, rfl⟩

/-- Runs lead to the state that executing the task at their times does. -/
theorem foldl_eq (h : spec.Executes s runs s') :
  s' = runs.foldl (fun s run => (spec.execute ⟨spec.name, run.id⟩ run.time s).state) s
  := by
  induction h with
  | nil => rfl
  | cons _ execution _ ih => rw [List.foldl_cons, execution, ih]

end TaskSpec.Executes

namespace TaskSpec.Replays

variable {spec : TaskSpec σ} {index : Nat} {s s' : σ} {history : List (Happening σ × List Run)}

/-- Where nobody else uses what a task works on, its runs are executed one after the other. -/
theorem executes (h : spec.Replays index s history s')
    (alone : ∀ step ∈ history, ∀ s, step.1.alter index s = s) :
  spec.Executes s (history.flatMap (·.2)) s'
  := by
  induction h with
  | nil => apply Executes.nil
  | cons executes _ ih =>
      rw [List.forall_mem_cons] at alone
      rw [alone.1] at executes
      rw [List.flatMap_cons]
      apply executes.append (ih alone.2)

/-- What each run of a task raises by one, and nobody else changes, counts the runs. -/
theorem count_eq (h : spec.Replays index s history s') (count : σ → Nat)
    (raised : ∀ context now s, count (spec.execute context now s).state = count s + 1)
    (kept : ∀ step ∈ history, ∀ s, count (step.1.alter index s) = count s) :
  count s' = count s + (history.flatMap (·.2)).length
  := by
  induction h with
  | nil => rfl
  | @cons s s' _ event runs history executes _ ih =>
      have hruns : ∀ (runs : List Run) (s : σ),
          count (runs.foldl (fun s run => (spec.execute ⟨spec.name, run.id⟩ run.time s).state) s)
            = count s + runs.length := by
        intro runs
        induction runs with
        | nil => exact fun _ => rfl
        | cons run runs ih =>
            intro s
            rw [List.foldl_cons, ih, raised, List.length_cons, Nat.add_right_comm, Nat.add_assoc]
      rw [List.forall_mem_cons] at kept
      rw [ih kept.2, executes.foldl_eq, hruns, kept.1, List.flatMap_cons, List.length_append,
        Nat.add_assoc]

/-- What a run takes and how it ends is what executing the task in some state gives. -/
theorem exists_execution (h : spec.Replays index s history s') :
  ∀ run ∈ history.flatMap (·.2), ∃ s,
    (spec.execute ⟨spec.name, run.id⟩ run.time s).duration = run.duration
      ∧ (spec.execute ⟨spec.name, run.id⟩ run.time s).outcome = run.outcome
  := by
  induction h with
  | nil => apply List.forall_mem_nil
  | cons executes _ ih =>
      rw [List.flatMap_cons, List.forall_mem_append]
      exact ⟨executes.exists_execution, ih⟩

end TaskSpec.Replays

namespace Task

variable {t : Task σ} {stopping : Bool} {now later index : Nat}

/-- One thing that happens is one run that is executed, or none. -/
theorem executes_step (stopping : Bool) (time : Nat) (t : Task σ) :
  t.spec.Executes t.state (t.step stopping time).2 (t.step stopping time).1.state
  := by
  rw [step]
  split
  · apply TaskSpec.Executes.nil
  · split_ifs
    · exact TaskSpec.Executes.cons rfl rfl (TaskSpec.Executes.nil _)
    · apply TaskSpec.Executes.nil
    · apply TaskSpec.Executes.nil
  · split_ifs <;> apply TaskSpec.Executes.nil
  · apply TaskSpec.Executes.nil
  · apply TaskSpec.Executes.nil

/-- While the clock moves each run is executed once. -/
theorem executes_settle (stopping : Bool) (later now : Nat) (t : Task σ) :
  t.spec.Executes t.state (t.settle stopping later now).2 (t.settle stopping later now).1.state
  := by
  apply settle_induction (P := fun _ t outcome => t.spec.Executes t.state outcome.2 outcome.1.state)
  case rest =>
    intro now t _
    apply TaskSpec.Executes.nil
  case step =>
    intro now time t t' runs _ _ ih
    rw [spec_step] at ih
    apply (executes_step stopping time t).append ih

/-! ### What events lead to -/

theorem spec_perform (t : Task σ) (index : Nat) (stopping : Bool) (now : Nat)
    (event : Happening σ) :
  (t.perform index stopping now event).1.spec = t.spec
  := by
  match event with
  | .register .. | .act .. => rfl
  | .pass .. => apply spec_settle

/-- What an event makes of a task: first others may use what the task works on, then the runs are
executed. -/
theorem executes_perform (t : Task σ) (index : Nat) (stopping : Bool) (now : Nat)
    (event : Happening σ) :
  t.spec.Executes (event.alter index t.state) (t.perform index stopping now event).2
    (t.perform index stopping now event).1.state
  := by
  match event with
  | .register .. => apply TaskSpec.Executes.nil
  | .act .. => apply TaskSpec.Executes.nil
  | .pass .. => apply executes_settle

theorem replays (t : Task σ) (index : Nat) (stopping : Bool) (now : Nat)
    (events : List (Happening σ)) :
  t.spec.Replays index t.state (t.history index stopping now events)
    (t.after index stopping now events).state
  := by
  induction events generalizing t now with
  | nil => apply TaskSpec.Replays.nil
  | cons event events ih =>
      have hrest := ih (t.perform index stopping now event).1 (now + event.elapsed)
      rw [spec_perform] at hrest
      apply TaskSpec.Replays.cons (executes_perform ..) hrest

/-- The times at which an event may lead to runs. -/
theorem start_le (passage : Passage) (h : now ≤ later) :
  now ≤ passage.start now later ∧ passage.start now later ≤ later
  := by
  cases passage
  · exact ⟨Nat.le_refl _, h⟩
  · exact ⟨h, Nat.le_refl _⟩

/-- The runs that events lead to make a series. -/
theorem series (t : Task σ) (index : Nat) (stopping : Bool) (now : Nat)
    (events : List (Happening σ)) :
  Series t.spec.interval (t.phase.due? now) t.runs (t.runsOf index stopping now events)
  := by
  induction events generalizing t now with
  | nil => apply Series.nil
  | cons event events ih =>
      rw [runsOf_cons]
      match event with
      | .register .. => apply ih t
      | .act index' f =>
          exact ih { t with state := (Happening.act index' f).alter index t.state } now
      | .pass passage milliseconds =>
          obtain ⟨hfirst, hlast⟩ := start_le passage (Nat.le_add_right now milliseconds)
          apply Series.mono _ (due?_mono hfirst)
          apply series_settle hlast stopping t
          rw [← spec_settle stopping _ _ t]
          apply ih

theorem time_le_of_mem (t : Task σ) (index : Nat) (stopping : Bool) (now : Nat)
    (events : List (Happening σ)) :
  ∀ run ∈ t.runsOf index stopping now events, run.time ≤ now + elapsed events
  := by
  induction events generalizing t now with
  | nil => apply List.forall_mem_nil
  | cons event events ih =>
      have hrest := ih (t.perform index stopping now event).1 (now + event.elapsed)
      rw [runsOf_cons, List.forall_mem_append, elapsed, ← Nat.add_assoc]
      refine ⟨?_, hrest⟩
      intro run hrun
      match event with
      | .register .. | .act .. => contradiction
      | .pass passage milliseconds =>
          have htime := (time_le_of_settle _ _ _ t run hrun).2
          simp only [Happening.elapsed]
          omega

theorem length_of_jump (long : Ticker.tolerance < t.spec.interval) (index : Nat) (stopping : Bool)
    (now : Nat) (events : List (Happening σ)) :
  ∀ step ∈ t.history index stopping now events, ¬ step.1.IsSmooth → step.2.length ≤ 1
  := by
  induction events generalizing t now with
  | nil => apply List.forall_mem_nil
  | cons event events ih =>
      rw [history, List.forall_mem_cons]
      constructor
      · intro hjump
        match event with
        | .pass .jump milliseconds => apply length_settle_jump long
        | .pass .smooth _ | .register .. | .act .. => exact absurd trivial hjump
      · apply ih
        rw [spec_perform]
        apply long

/-! ### Regular runs -/

end Task

/-- The multiples of an interval behind one and up to another, counted from a start. -/
def multiples (start interval first last : Nat) : List Nat :=
  (List.range' (first + 1) (last - first)).map (start + · * interval)

theorem multiples_self (start interval first : Nat) :
  multiples start interval first first = []
  := by
  rw [multiples, Nat.sub_self, List.range'_zero, List.map_nil]

theorem multiples_succ (start interval first : Nat) :
  multiples start interval first (first + 1) = [start + (first + 1) * interval]
  := by
  rw [multiples, Nat.add_sub_cancel_left]
  rfl

theorem multiples_append (start interval : Nat) {first middle last : Nat} (h : first ≤ middle)
    (h' : middle ≤ last) :
  multiples start interval first middle ++ multiples start interval middle last
    = multiples start interval first last
  := by
  have hmiddle : middle + 1 = first + 1 + (middle - first) := by omega
  have hlength : last - first = middle - first + (last - middle) := by omega
  rw [multiples, multiples, ← List.map_append, hmiddle, List.range'_append_1, ← hlength, multiples]

/-- A run that fits into an interval and does not end the task. -/
def Run.Fits (interval : Nat) (run : Run) : Prop :=
  run.duration ≤ interval ∧ run.outcome ≠ .panicked

instance (interval : Nat) (run : Run) : Decidable (run.Fits interval) :=
  inferInstanceAs (Decidable (_ ∧ _))

/-- The timer goes off at `next`, and whatever goes on is over by then. -/
def Phase.Regular {interval : Nat} (start now next : Nat) : Phase interval → Prop
  | .spawned => now = start
  | .waiting ticker => ticker.due = next ∧ now ≤ next
  | .running ticker finish outcome =>
    ticker.due = next ∧ now ≤ next ∧ finish ≤ next ∧ outcome ≠ .panicked
  | .stopped | .panicked => False

namespace Task

/-- A task that was run at every multiple of its interval, and that is free in time for the next. -/
structure Regular (start now : Nat) (t : Task σ) : Prop where
  positive : 0 < t.spec.interval
  passed : start + t.runs * t.spec.interval ≤ now
  phase : t.phase.Regular start now (start + (t.runs + 1) * t.spec.interval)

/-- While a clock moves smoothly from one time to another, a task is run at the multiples of its
interval that are passed. -/
structure Keeps (start later : Nat) (t t' : Task σ) (runs : List Run) : Prop where
  regular : t'.Regular start later
  grown : t.runs ≤ t'.runs
  times : runs.map (·.time) = multiples start t.spec.interval t.runs t'.runs

namespace Regular

variable {t : Task σ} {start now time later index : Nat}

theorem fresh {spec : TaskSpec σ} (positive : 0 < spec.interval) (state : σ) (draws : Nat → Bool)
    (now : Nat) :
  (Task.fresh spec state draws).Regular now now
  := by
  refine ⟨positive, ?_, rfl⟩
  simp [Task.fresh]

/-- What happens next leaves a task regular, unless a run does not fit. -/
theorem step (regular : t.Regular start now) (h : t.phase.wake? false now = some time)
    (fit : ∀ run ∈ (t.step false time).2, run.Fits t.spec.interval) :
  Keeps start time t (t.step false time).1 (t.step false time).2
  := by
  have positive := regular.positive
  have passed := regular.passed
  have hphase := regular.phase
  have hmul : (t.runs + 1 + 1) * t.spec.interval
      = (t.runs + 1) * t.spec.interval + t.spec.interval := Nat.succ_mul ..
  have hmul' : (t.runs + 1) * t.spec.interval = t.runs * t.spec.interval + t.spec.interval :=
    Nat.succ_mul ..
  obtain ⟨hspawned, rfl, hstep⟩ | ⟨ticker, hwaiting, -, htime, hstep, -⟩
    | ⟨_, -, hstopping, -⟩ | ⟨ticker, finish, outcome, hrunning, htime, hstep⟩ := step_cases h
  · rw [hspawned] at hphase
    obtain rfl : time = start := hphase
    rw [hstep]
    refine ⟨⟨positive, passed, ?_⟩, Nat.le_refl _, ?_⟩
    · change (Phase.begun t.spec.interval time).Regular time time
        (time + (t.runs + 1) * t.spec.interval)
      rw [Phase.begun, Ticker.create?, dif_pos positive]
      change time + t.spec.interval = _ ∧ time ≤ _
      omega
    · exact (multiples_self ..).symm
  · rw [hwaiting] at hphase
    obtain ⟨hdue, hnow⟩ := hphase
    rw [if_neg Bool.false_ne_true, hdue, Nat.max_eq_right hnow, ← hdue] at htime
    rw [hstep, List.forall_mem_singleton] at fit
    obtain ⟨brief, unharmed⟩ := fit
    rw [hstep]
    subst htime
    refine ⟨⟨positive, hdue.ge, ?_⟩, Nat.le_succ _, ?_⟩
    · have hnext := ticker.due_tick_due
      have hfinish : ticker.due + (t.start ticker ticker.due).2.duration
          ≤ start + (t.runs + 1 + 1) * t.spec.interval := by omega
      change (ticker.tick ticker.due).due = start + (t.runs + 1 + 1) * t.spec.interval
        ∧ ticker.due ≤ start + (t.runs + 1 + 1) * t.spec.interval ∧ _
      refine ⟨?_, ?_, hfinish, unharmed⟩ <;> omega
    · rw [List.map_singleton]
      exact (congrArg (fun due => [due]) hdue).trans (multiples_succ ..).symm
  · contradiction
  · rw [hrunning] at hphase
    obtain ⟨hdue, hnow, hfinish, unharmed⟩ := hphase
    rw [hstep]
    refine ⟨⟨positive, ?_, ?_⟩, Nat.le_refl _, ?_⟩
    · apply passed.trans
      rw [htime]
      apply Nat.le_max_left
    · cases outcome with
      | panicked => contradiction
      | done | failed _ =>
          refine ⟨hdue, ?_⟩
          rw [htime]
          exact Nat.max_le.mpr ⟨hnow, hfinish⟩
    · exact (multiples_self ..).symm

/-- A clock that moves smoothly leads to the runs at the multiples of the interval that it
passes. -/
theorem settle (regular : t.Regular start now) (h : now ≤ later)
    (fit : ∀ run ∈ (t.settle false later now).2, run.Fits t.spec.interval) :
  Keeps start later t (t.settle false later now).1 (t.settle false later now).2
    ∧ later < start + ((t.settle false later now).1.runs + 1) * t.spec.interval
  := by
  revert regular h fit
  apply settle_induction (P := fun now t outcome => t.Regular start now → now ≤ later →
    (∀ run ∈ outcome.2, run.Fits t.spec.interval) → Keeps start later t outcome.1 outcome.2
      ∧ later < start + (outcome.1.runs + 1) * t.spec.interval)
  case rest =>
    intro now t late regular h _
    have hphase := regular.phase
    have hlater : t.phase.Regular start later (start + (t.runs + 1) * t.spec.interval)
        ∧ later < start + (t.runs + 1) * t.spec.interval := by
      cases ht : t.phase with
      | spawned =>
          rw [ht] at late
          exact absurd (late now rfl) (Nat.not_lt.mpr h)
      | waiting ticker =>
          rw [ht] at late hphase
          have htime := late _ rfl
          obtain ⟨hdue, -⟩ := hphase
          rw [if_neg Bool.false_ne_true] at htime
          exact ⟨⟨hdue, by omega⟩, by omega⟩
      | running ticker finish outcome =>
          rw [ht] at late hphase
          have htime := late _ rfl
          obtain ⟨hdue, hnow, hfinish, unharmed⟩ := hphase
          exact ⟨⟨hdue, by omega, hfinish, unharmed⟩, by omega⟩
      | stopped | panicked =>
          rw [ht] at hphase
          contradiction
    refine ⟨⟨⟨regular.positive, regular.passed.trans h, hlater.1⟩, Nat.le_refl _, ?_⟩, hlater.2⟩
    exact (multiples_self ..).symm
  case step =>
    intro now time t t' runs hwake early ih regular _ fit
    rw [List.forall_mem_append] at fit
    have first := regular.step hwake fit.1
    have hspec := spec_step false time t
    rw [hspec] at ih
    obtain ⟨rest, hlast⟩ := ih first.regular early fit.2
    refine ⟨⟨rest.regular, first.grown.trans rest.grown, ?_⟩, hlast⟩
    rw [List.map_append, first.times, rest.times, hspec]
    apply multiples_append _ _ first.grown rest.grown

/-- What an event but a jump leads to. -/
theorem perform (regular : t.Regular start now)
    (ahead : now < start + (t.runs + 1) * t.spec.interval) {event : Happening σ}
    (smooth : event.IsSmooth)
    (fit : ∀ run ∈ (t.perform index false now event).2, run.Fits t.spec.interval) :
  Keeps start (now + event.elapsed) t (t.perform index false now event).1
      (t.perform index false now event).2
    ∧ now + event.elapsed
      < start + ((t.perform index false now event).1.runs + 1) * t.spec.interval
  := by
  match event with
  | .pass .smooth milliseconds => apply regular.settle (Nat.le_add_right ..) fit
  | .register .. =>
      exact ⟨⟨regular, Nat.le_refl _, (multiples_self ..).symm⟩, ahead⟩
  | .act .. =>
      exact ⟨⟨⟨regular.positive, regular.passed, regular.phase⟩, Nat.le_refl _,
        (multiples_self ..).symm⟩, ahead⟩

/-- As long as the clock does not jump and the runs fit there is a run at every multiple of the
interval. -/
theorem times_runsOf (regular : t.Regular start now)
    (ahead : now < start + (t.runs + 1) * t.spec.interval) {events : List (Happening σ)}
    (smooth : ∀ event ∈ events, event.IsSmooth)
    (fit : ∀ run ∈ t.runsOf index false now events, run.Fits t.spec.interval) :
  ∃ last, t.runs ≤ last ∧ start + last * t.spec.interval ≤ now + elapsed events
    ∧ now + elapsed events < start + (last + 1) * t.spec.interval
    ∧ (t.runsOf index false now events).map (·.time)
      = multiples start t.spec.interval t.runs last
  := by
  induction events generalizing t now with
  | nil => exact ⟨t.runs, Nat.le_refl _, regular.passed, ahead, (multiples_self ..).symm⟩
  | cons event events ih =>
      rw [List.forall_mem_cons] at smooth
      rw [runsOf_cons, List.forall_mem_append] at fit
      obtain ⟨keeps, hahead⟩ := regular.perform ahead smooth.1 fit.1
      have hspec := t.spec_perform index false now event
      rw [← hspec] at hahead
      obtain ⟨last, hrest, hlast, hnext, htimes⟩ := ih keeps.regular hahead smooth.2
        (by rw [hspec]; exact fit.2)
      rw [hspec] at hlast hnext htimes
      rw [elapsed, ← Nat.add_assoc]
      refine ⟨last, keeps.grown.trans hrest, hlast, hnext, ?_⟩
      rw [runsOf_cons, List.map_append, keeps.times, htimes]
      apply multiples_append _ _ keeps.grown hrest

end Regular

/-! ### The runs of a task from the start -/

section

variable (spec : TaskSpec σ) (state : σ) (draws : Nat → Bool) (index : Nat) (stopping : Bool)
  (now : Nat) (events : List (Happening σ))

/-- The runs of a task that was just registered make a series from the next deadline on. -/
theorem series_fresh :
  Series spec.interval (some (now + spec.interval)) 0
    ((fresh spec state draws).runsOf index stopping now events)
  := (fresh spec state draws).series index stopping now events

theorem countP_fresh (positive : 0 < spec.interval) (elapsed : Nat) :
  ((fresh spec state draws).runsOf index stopping now events).countP (·.time ≤ now + elapsed)
    ≤ elapsed / spec.interval
  := by
  have hdue : ∀ due ∈ some (now + spec.interval), now + (0 + 1) * spec.interval ≤ due := by
    rintro due ⟨⟩
    rw [Nat.zero_add, Nat.one_mul]
  have hcount :=
    (series_fresh spec state draws index stopping now events).countP_le positive hdue elapsed
  simpa using hcount

theorem length_fresh (positive : 0 < spec.interval) :
  ((fresh spec state draws).runsOf index stopping now events).length
    ≤ elapsed events / spec.interval
  := by
  have hall : ((fresh spec state draws).runsOf index stopping now events).countP
      (·.time ≤ now + elapsed events)
        = ((fresh spec state draws).runsOf index stopping now events).length := by
    apply List.countP_eq_length.mpr
    simpa using (fresh spec state draws).time_le_of_mem index stopping now events
  rw [← hall]
  apply countP_fresh spec state draws index stopping now events positive

/-- On a clock that does not jump a task is run at every multiple of its interval, if all its runs
fit. -/
theorem times_fresh (positive : 0 < spec.interval) (smooth : ∀ event ∈ events, event.IsSmooth)
    (fit : ∀ run ∈ (fresh spec state draws).runsOf index false now events,
      run.Fits spec.interval) :
  ((fresh spec state draws).runsOf index false now events).map (·.time)
    = (List.range' 1 (elapsed events / spec.interval)).map
      (now + · * spec.interval)
  := by
  have ahead : now < now + ((fresh spec state draws).runs + 1) * spec.interval := by
    simp only [fresh]
    omega
  obtain ⟨last, -, hlast, hnext, htimes⟩ :=
    (Regular.fresh positive state draws now).times_runsOf ahead smooth fit
  have hcount : elapsed events / spec.interval = last := by
    apply Nat.div_eq_of_lt_le
    · apply Nat.le_of_add_le_add_left hlast
    · apply Nat.lt_of_add_lt_add_left hnext
  rw [htimes, hcount, multiples]
  rfl

end

end Task

end Collate
