import Collate.Schedule
import Collate.Search.Cache

/-!
# Sweeping out idle searches

The eviction task sweeps a cache once in each of its runs.  A sweep that panics is an error of that
run alone: the task goes on.
-/

namespace Collate

/-- What comes of sweeping a `σ`. -/
structure Sweep (σ : Type) where
  state : σ
  duration : Nat
  panicked : Bool

/-- The task that sweeps something at an interval. -/
def evictionTask {σ : Type} (interval : Nat) (sweep : Nat → σ → Sweep σ) : TaskSpec σ where
  name := "creator-eviction"
  interval := interval
  execute _ now s :=
    let swept := sweep now s
    ⟨swept.state, swept.duration,
      if swept.panicked then .failed (.invalidState .sweepPanicked) else .done⟩

/-- Puts the sweeps of a cache on a schedule, at the interval of the settings. -/
def CacheConfig.scheduleEviction {σ : Type} (config : CacheConfig) (sweep : Nat → σ → Sweep σ)
    (cache : σ) (draws : Nat → Bool) (s : Scheduler σ) : Scheduler σ :=
  s.register (evictionTask config.evictionInterval sweep) cache draws

/-- A sweep of a cache of searches, which may have to wait for those that use them. -/
def SearchCache.sweep {κ : Type} {library : CacheLibrary κ}
    (wait : Nat → SearchCache library → Nat) (now : Nat) (c : SearchCache library) :
    Sweep (SearchCache library) :=
  ⟨c.evict now, wait now c, false⟩

end Collate
