import Collate.Table.Producer
import Mathlib.Tactic.Use

/-!
# Runs of producers

Once its script is used up, a producer goes on as if its signal kept to one answer while nobody
else came.  So every poll is played in the same way, whether or not it is written in the script,
and what holds of all runs is shown by one induction.
-/

namespace Collate

namespace Poll

def calls : Poll → List Call
  | mk calls _ => calls

def raised : Poll → Bool
  | mk _ raised => raised

/-- The next poll of a signal that answers `rest` once its script is used up. -/
def next (rest : Bool) : List Poll → Poll
  | [] => mk [] rest
  | poll :: _ => poll

end Poll

namespace Table

/-- Settling asks the signal, resumes the stage, and goes on with the stage that is left. -/
theorem settle_eq (t : Table) (stage : Stage) (raised : Bool) :
  t.settle stage raised
    = match t.resume stage raised with
      | (t', none, fault) => (t', fault, [.mk t.busy raised []])
      | (t', some stage', fault) =>
        ((t'.settle stage' raised).1, fault.or (t'.settle stage' raised).2.1,
          .mk t.busy raised [] :: (t'.settle stage' raised).2.2)
  := by
  rw [settle]
  split
  next h => rw [h]
  next h => rw [h]

/-- Every poll is played in the same way. -/
theorem runPolls_eq (t : Table) (stage : Stage) (rest : Bool) (polls : List Poll) :
  t.runPolls stage rest polls
    = let poll := Poll.next rest polls
      let arrived := t.runAll poll.calls
      match arrived.1.resume stage poll.raised with
      | (t', none, fault) => (t', fault, [.mk t.busy poll.raised arrived.2])
      | (t', some stage', fault) =>
        let later := t'.runPolls stage' rest polls.tail
        (later.1, fault.or later.2.1, .mk t.busy poll.raised arrived.2 :: later.2.2)
  := by
  match polls with
  | [] =>
      rw [runPolls, settle_eq]
      simp only [Poll.next, Poll.calls, Poll.raised, runAll, List.tail_nil, runPolls]
  | .mk calls raised :: polls =>
      rw [runPolls]
      rfl

/-- A call that adds a payload runs its polls from the arrival of the payload. -/
theorem run_add (t : Table) (payload : Payload) (polls : List Poll) (rest : Bool) :
  t.run (.add payload polls rest)
    = .mk (t.runPolls (.arriving payload) rest polls).2.1
      (t.runPolls (.arriving payload) rest polls).2.2 (t.runPolls (.arriving payload) rest polls).1
  := rfl

/-- A producer that has merged a payload goes on with what is pending, unless the signal drops
it. -/
theorem resume_merged (t : Table) (raised : Bool) :
  t.resume .merged raised
    = ((t.heed raised).proceed.1, some (t.heed raised).proceed.2.1, (t.heed raised).proceed.2.2)
  := rfl

/-- A producer that returns after its next poll. -/
theorem runPolls_of_returns {t t' : Table} {stage : Stage} {rest : Bool} {polls : List Poll}
    {fault : Option Error}
    (h : (t.runAll (Poll.next rest polls).calls).1.resume stage (Poll.next rest polls).raised
      = (t', none, fault)) :
  t.runPolls stage rest polls
    = (t', fault, [.mk t.busy (Poll.next rest polls).raised
        (t.runAll (Poll.next rest polls).calls).2])
  := by
  rw [runPolls_eq]
  simp only [h]

/-- A producer that goes on after its next poll. -/
theorem runPolls_of_proceeds {t t' : Table} {stage stage' : Stage} {rest : Bool}
    {polls : List Poll} {fault : Option Error}
    (h : (t.runAll (Poll.next rest polls).calls).1.resume stage (Poll.next rest polls).raised
      = (t', some stage', fault)) :
  t.runPolls stage rest polls
    = ((t'.runPolls stage' rest polls.tail).1,
        fault.or (t'.runPolls stage' rest polls.tail).2.1,
        .mk t.busy (Poll.next rest polls).raised (t.runAll (Poll.next rest polls).calls).2
          :: (t'.runPolls stage' rest polls.tail).2.2)
  := by
  rw [runPolls_eq]
  simp only [h]

/-- What one poll hands on to the producer that asked holds of all runs. -/
theorem run_induction {C : Table → Call → Prop} {A : Table → List Call → Prop}
    {P : Table → Stage → Bool → List Poll → Prop}
    (add : ∀ t payload polls rest,
      P t (.arriving payload) rest polls → C t (.add payload polls rest))
    (clear : ∀ t, C t .clear)
    (look : ∀ t, C t .look)
    (nil : ∀ t, A t [])
    (cons : ∀ t call calls, C t call → A (t.run call).after calls → A t (call :: calls))
    (poll : ∀ t stage rest polls, A t (Poll.next rest polls).calls →
      (∀ t' stage' fault, (t.runAll (Poll.next rest polls).calls).1.resume stage
          (Poll.next rest polls).raised = (t', some stage', fault) →
        P t' stage' rest polls.tail) →
      P t stage rest polls) :
  (∀ t call, C t call) ∧ (∀ t calls, A t calls) ∧ ∀ t stage rest polls, P t stage rest polls
  := by
  have settled (n : Nat) : ∀ t stage rest, effort t stage = n → P t stage rest [] := by
    induction n using Nat.strongRecOn with
    | ind n ih =>
        intro t stage rest hn
        apply poll t stage rest [] (nil t)
        intro t' stage' fault h
        apply ih (t'.effort stage') _ _ _ _ rfl
        rw [← hn]
        apply effort_resume_lt h
  have all : (∀ t call, C t call) ∧ (∀ t stage rest polls, P t stage rest polls)
      ∧ ∀ t calls, A t calls := by
    apply run.mutual_induct
    · intro t payload polls rest _ _ _ _
      apply add
    · apply clear
    · apply look
    · intro t stage rest
      apply settled _ t stage rest rfl
    · intro t stage rest calls raised polls _ _ hcalls t' fault hresume arrived
      apply poll t stage rest (.mk calls raised :: polls) arrived
      intro t'' stage'' fault' h
      simp [Poll.next, Poll.calls, Poll.raised, hcalls, hresume] at h
    · intro t stage rest calls raised polls _ _ hcalls t' stage' fault hresume _ _ _ _ arrived later
      apply poll t stage rest (.mk calls raised :: polls) arrived
      intro t'' stage'' fault' h
      simp only [Poll.next, Poll.calls, Poll.raised, hcalls, hresume, Prod.mk.injEq,
        Option.some.injEq] at h
      obtain ⟨rfl, rfl, -⟩ := h
      apply later
    · apply nil
    · intro t call calls step _ _ _ first later
      apply cons t call calls first later
  exact ⟨all.1, all.2.2, all.2.1⟩

/-- What one poll hands on to the producer that asked holds of its whole run, whatever the calls
that arrive in between. -/
theorem polls_induction {P : Table → Stage → Bool → List Poll → Prop}
    (poll : ∀ t stage rest polls,
      (∀ t' stage' fault, (runAll t (Poll.next rest polls).calls).1.resume stage
          (Poll.next rest polls).raised = (t', some stage', fault) →
        P t' stage' rest polls.tail) →
      P t stage rest polls)
    (t : Table) (stage : Stage) (rest : Bool) (polls : List Poll) :
  P t stage rest polls
  := by
  have all := run_induction (C := fun _ _ => True) (A := fun _ _ => True) (P := P)
    (fun _ _ _ _ _ => trivial) (fun _ => trivial) (fun _ => trivial) (fun _ => trivial)
    (fun _ _ _ _ _ => trivial) (fun t stage rest polls _ => poll t stage rest polls)
  apply all.2.2

/-! ### The gate -/

end Table

/-- Where a producer may stand, as far as the gate is concerned. -/
def Stage.Fits (t : Table) : Stage → Prop
  | .arriving _ => True
  | .merged => t.gate.held = true
  | .released => t.gate.held = false

/-- The gate as a producer leaves it. -/
def Stage.gateAfter (t : Table) : Stage → Gate
  | .arriving _ => t.gate
  | .merged | .released => .free

/-- A gate is free exactly when nobody holds it. -/
theorem Gate.eq_free_iff {g : Gate} :
  g = .free ↔ g.held = false
  := by
  obtain ⟨held⟩ := g
  simp [free]

/-- Whether a stage fits a table depends on its gate alone. -/
theorem Stage.Fits.of_gate {t t' : Table} {stage : Stage} (fits : stage.Fits t)
    (h : t'.gate = t.gate) :
  stage.Fits t'
  := by
  cases stage with
  | arriving => trivial
  | merged => simpa [Fits, h] using fits
  | released => simpa [Fits, h] using fits

namespace Table

theorem gate_heed (t : Table) (raised : Bool) :
  (t.heed raised).gate = t.gate
  := by
  cases raised <;> rfl

theorem gate_merge (t : Table) (payload : Payload) :
  (t.merge payload).1.gate = t.gate
  := by
  simp only [merge]
  split <;> rfl

/-- A producer that finds the gate held leaves at once. -/
theorem enter_of_held {t : Table} (h : t.gate.held = true) :
  t.enter = (t, none, none)
  := by
  rw [enter, Gate.acquire?, if_pos h]

/-- A producer that finds the gate free takes it and proceeds. -/
theorem enter_of_free {t : Table} (h : t.gate.held = false) :
  t.enter
    = ({ t with gate := ⟨true⟩ }.proceed.1, some { t with gate := ⟨true⟩ }.proceed.2.1,
        { t with gate := ⟨true⟩ }.proceed.2.2)
  := by
  rw [enter, Gate.acquire?, h]
  rfl

/-- Only whoever finds the gate taken turns back. -/
theorem enter_returns {t t' : Table} {fault : Option Error} (h : t.enter = (t', none, fault)) :
  t.gate.held = true ∧ t' = t ∧ fault = none
  := by
  cases hgate : t.gate.held with
  | true =>
      rw [enter_of_held hgate] at h
      obtain ⟨rfl, -, rfl⟩ := h
      exact ⟨rfl, rfl, rfl⟩
  | false =>
      rw [enter_of_free hgate] at h
      simp at h

/-- With nothing pending the gate holder frees the gate. -/
theorem proceed_of_nil {t : Table} (h : t.pending = []) :
  t.proceed = ({ t with gate := .free }, .released, none)
  := by
  rw [proceed, h]
  rfl

/-- A cleared table skips the payload at hand, and its gate is freed. -/
theorem proceed_of_cleared {t : Table} {payload : Payload} {pending : List Payload}
    (h : t.pending = payload :: pending) (cleared : t.cleared = true) :
  t.proceed = ({ t with pending, gate := .free }, .released, none)
  := by
  rw [proceed, h]
  simp only [if_pos cleared]
  rfl

/-- The gate holder merges the first pending payload and keeps the gate. -/
theorem proceed_of_cons {t : Table} {payload : Payload} {pending : List Payload}
    (h : t.pending = payload :: pending) (uncleared : t.cleared = false) :
  t.proceed = (({ t with pending }.merge payload).1, .merged, ({ t with pending }.merge payload).2)
  := by
  rw [proceed, h]
  simp only [uncleared, Bool.false_eq_true, if_false]

/-- The holder of the gate either keeps it for its next merge or lets go of it. -/
theorem fits_proceed {t : Table} (h : t.gate.held = true) :
  t.proceed.2.1.Fits t.proceed.1 ∧ t.proceed.2.1.gateAfter t.proceed.1 = .free
  := by
  cases hpending : t.pending with
  | nil =>
      rw [proceed_of_nil hpending]
      exact ⟨rfl, rfl⟩
  | cons payload pending =>
      cases hcleared : t.cleared with
      | true =>
          rw [proceed_of_cleared hpending hcleared]
          exact ⟨rfl, rfl⟩
      | false =>
          rw [proceed_of_cons hpending hcleared]
          simp only [Stage.Fits, Stage.gateAfter, gate_merge]
          exact ⟨h, trivial⟩

/-- Only a free gate can be entered, and its holder leaves it free in the end. -/
theorem fits_enter {t t' : Table} {stage' : Stage} {fault : Option Error}
    (h : t.enter = (t', some stage', fault)) :
  t.gate.held = false ∧ stage'.Fits t' ∧ stage'.gateAfter t' = .free
  := by
  cases hgate : t.gate.held with
  | true =>
      rw [enter_of_held hgate] at h
      simp at h
  | false =>
      rw [enter_of_free hgate, Prod.mk.injEq, Prod.mk.injEq, Option.some.injEq] at h
      obtain ⟨rfl, rfl, -⟩ := h
      use rfl
      apply fits_proceed rfl

/-- A producer that returns has nothing more to do: if the gate is free then nothing waits. -/
theorem resume_returns {t t' : Table} {stage : Stage} {raised : Bool} {fault : Option Error}
    (h : t.resume stage raised = (t', none, fault)) :
  stage ≠ .merged ∧ fault = none ∧ t'.gate = t.gate ∧ (t.gate.held = false → t'.pending = [])
  := by
  cases stage with
  | arriving payload =>
      rw [resume] at h
      use Stage.noConfusion
      split at h
      · obtain ⟨rfl, -, rfl⟩ := h
        exact ⟨rfl, rfl, fun _ => rfl⟩
      · obtain ⟨hheld, rfl, rfl⟩ := enter_returns h
        use rfl, rfl
        intro hfree
        rw [hfree] at hheld
        contradiction
  | merged => simp [resume_merged] at h
  | released =>
      rw [resume] at h
      use Stage.noConfusion
      split at h
      next hwaiting =>
        obtain ⟨rfl, -, rfl⟩ := h
        use rfl, t.gate_heed raised
        intro _
        apply List.isEmpty_iff.mp hwaiting
      next hwaiting =>
        obtain ⟨hheld, rfl, rfl⟩ := enter_returns h
        use rfl, t.gate_heed raised
        intro hfree
        rw [gate_heed, hfree] at hheld
        contradiction

/-- A producer that goes on has had the gate to itself. -/
theorem resume_proceeds {t t' : Table} {stage stage' : Stage} {raised : Bool}
    {fault : Option Error} (fits : stage.Fits t)
    (h : t.resume stage raised = (t', some stage', fault)) :
  stage.gateAfter t = .free ∧ stage'.Fits t' ∧ stage'.gateAfter t' = .free
  := by
  cases stage with
  | arriving payload =>
      rw [resume] at h
      split at h
      · simp at h
      · obtain ⟨hfree, hfits⟩ := fits_enter h
        exact ⟨Gate.eq_free_iff.mpr hfree, hfits⟩
  | merged =>
      have hheld : (t.heed raised).gate.held = true := by
        rw [gate_heed]
        apply fits
      rw [resume_merged, Prod.mk.injEq, Prod.mk.injEq, Option.some.injEq] at h
      obtain ⟨rfl, rfl, -⟩ := h
      use rfl
      apply fits_proceed hheld
  | released =>
      rw [resume] at h
      split at h
      · simp at h
      · use rfl
        apply (fits_enter h).2

/-- Whoever takes the gate gives it back. -/
theorem gate_run :
  (∀ t call, (run t call).after.gate = t.gate)
    ∧ (∀ t calls, (runAll t calls).1.gate = t.gate)
    ∧ ∀ t stage rest polls, stage.Fits t → (runPolls t stage rest polls).1.gate = stage.gateAfter t
  := by
  apply run_induction
  case add =>
    intro t payload polls rest h
    apply h trivial
  case clear =>
    intro t
    rfl
  case look =>
    intro t
    rfl
  case nil =>
    intro t
    rfl
  case cons =>
    intro t call calls first later
    apply later.trans first
  case poll =>
    intro t stage rest polls harrived hproceeds fits
    have fits' := fits.of_gate harrived
    rcases h : (t.runAll (Poll.next rest polls).calls).1.resume stage (Poll.next rest polls).raised
      with ⟨t', _ | stage', fault⟩
    · obtain ⟨hmerged, -, hgate, -⟩ := resume_returns h
      rw [runPolls_of_returns h]
      simp only [hgate, harrived]
      cases stage with
      | arriving => rfl
      | merged => contradiction
      | released => apply Gate.eq_free_iff.mpr fits
    · obtain ⟨hfree, hfits, hfree'⟩ := resume_proceeds fits' h
      rw [runPolls_of_proceeds h]
      simp only [hproceeds _ _ _ h hfits, hfree']
      cases stage with
      | arriving => apply hfree.symm.trans harrived
      | merged => rfl
      | released => rfl

end Table

end Collate
