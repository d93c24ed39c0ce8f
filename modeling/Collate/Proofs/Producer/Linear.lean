import Collate.Proofs.Producer.Ledger
import Collate.Proofs.Producer.Progress

/-!
# Producers in the middle of one another

A ledger accounts for a table that is not cleared: what it says was merged, merged one payload
after the other, makes the table, and what it says waits is what waits.  Producers that arrive in
the middle of one another therefore come to the same as producers that come one after the other.
-/

namespace Collate

namespace Table

/-! ### What a ledger says of a table -/

/-- A table that came from another one by merging what its ledger says, while the rest waits. -/
structure Accounts (start t : Table) (ledger : Ledger) : Prop where
  lines : ∃ past : Ledger, past.Past ∧ ledger = past ++ .ofWaiting t.pending
  merged : t = (start.feed (ledger.settled.map (·.1))).1.withQueue t.pending t.gate
  faults : (start.feed (ledger.settled.map (·.1))).2 = ledger.settled.map (·.2)

theorem Accounts.cleared {start t : Table} {ledger : Ledger} (idle : start.Idle)
    (accounts : Accounts start t ledger) :
  t.cleared = false
  := by
  rw [accounts.merged]
  apply (idle.feed _).cleared

/-- Only merges settle anything, whatever else happens to the queue and the gate. -/
theorem Accounts.withQueue {start t : Table} {ledger ledger' past : Ledger}
    {pending : List Payload} (accounts : Accounts start t ledger) (gate : Gate)
    (hpast : past.Past) (lines : ledger' = past ++ .ofWaiting pending)
    (settled : ledger'.settled = ledger.settled) :
  Accounts start (t.withQueue pending gate) ledger'
  where
  lines := ⟨past, hpast, lines⟩
  merged := by
    rw [settled]
    apply eq_withQueue accounts.merged
  faults := by
    rw [settled]
    apply accounts.faults

theorem Accounts.discard {start t : Table} {ledger : Ledger} (accounts : Accounts start t ledger) :
  Accounts start t.discard ledger.dropWaiting
  := accounts.withQueue t.gate ledger.past_dropWaiting (List.append_nil _).symm
    ledger.settled_dropWaiting

/-- The oldest payload that waits is merged as if it came by itself. -/
theorem Accounts.merge {start t : Table} {ledger : Ledger} {payload : Payload}
    {pending : List Payload} (idle : start.Idle) (accounts : Accounts start t ledger)
    (h : t.pending = payload :: pending) {t' : Table} {fault : Option Error}
    (hmerge : (t.withQueue pending t.gate).merge payload = (t', fault)) :
  Accounts start t' (ledger.mergeFirst fault)
    ∧ (ledger.mergeFirst fault).settled = ledger.settled ++ [(payload, fault)]
  := by
  obtain ⟨past, hpast, hlines⟩ := accounts.lines
  generalize hbase : (start.feed (ledger.settled.map (·.1))).1 = base
  have hidle : base.Idle := hbase ▸ idle.feed _
  have ht : t.withQueue pending t.gate = base.withQueue pending t.gate := by
    rw [← hbase]
    apply eq_withQueue accounts.merged
  rw [ht, merge_withQueue] at hmerge
  obtain ⟨rfl, rfl⟩ := Prod.mk.inj hmerge
  rw [h] at hlines
  have hledger : ledger.mergeFirst (base.merge payload).2
      = past ++ [(payload, .merged (base.merge payload).2)] ++ .ofWaiting pending := by
    rw [hlines, hpast.mergeFirst_append]
  have hsettled : (ledger.mergeFirst (base.merge payload).2).settled
      = ledger.settled ++ [(payload, (base.merge payload).2)] := by
    rw [hledger, hlines]
    simp only [Ledger.settled_append, Ledger.settled_ofWaiting, List.append_nil]
    rfl
  have hfeed : start.feed ((ledger.settled ++ [(payload, (base.merge payload).2)]).map (·.1))
      = ((base.merge payload).1,
        (ledger.settled ++ [(payload, (base.merge payload).2)]).map (·.2)) := by
    rw [List.map_append, List.map_append, feed_append, hbase, accounts.faults]
    simp only [List.map_cons, List.map_nil, hidle.feed_cons]
    rfl
  constructor
  · constructor
    case lines =>
      refine ⟨_, ?_, hledger⟩
      apply hpast.concat
      simp
    case merged =>
      rw [hsettled, hfeed]
      rfl
    case faults => rw [hsettled, hfeed]
  · apply hsettled

theorem Accounts.act {start t : Table} {ledger : Ledger} {event : Event} (idle : start.Idle)
    (accounts : Accounts start t ledger) (enabled : t.Enabled event) (h : event ≠ .cleared) :
  Accounts start (t.act event) (ledger.record event)
    ∧ (ledger.record event).settled = ledger.settled ++ event.merge?.toList
  := by
  obtain ⟨past, hpast, hlines⟩ := accounts.lines
  have huncleared := accounts.cleared idle
  have hsame : ledger.settled = ledger.settled ++ none.toList := (List.append_nil _).symm
  cases event with
  | asked => exact ⟨accounts, hsame⟩
  | arrived payload raised =>
      cases raised with
      | true =>
          have hsettled : (ledger.dropWaiting ++ [(payload, Fate.rejected)]).settled
              = ledger.settled := by
            rw [Ledger.settled_append, Ledger.settled_dropWaiting]
            apply List.append_nil
          constructor
          · apply accounts.withQueue t.gate _ (List.append_nil _).symm hsettled
            apply ledger.past_dropWaiting.concat
            simp
          · apply hsettled.trans hsame
      | false =>
          have hsettled : (ledger ++ [(payload, Fate.waiting)]).settled = ledger.settled := by
            rw [Ledger.settled_append]
            apply List.append_nil
          have hact : t.act (.arrived payload false)
              = t.withQueue (t.pending ++ [payload]) t.gate := by
            rw [Table.act, if_neg (by simp [huncleared])]
            rfl
          rw [hact]
          constructor
          · apply accounts.withQueue t.gate hpast _ hsettled
            rw [hlines]
            simp [Ledger.ofWaiting]
          · apply hsettled.trans hsame
  | answered raised =>
      cases raised with
      | true => exact ⟨accounts.discard, ledger.settled_dropWaiting.trans hsame⟩
      | false => exact ⟨accounts, hsame⟩
  | acquired => exact ⟨accounts.withQueue ⟨true⟩ hpast hlines rfl, hsame⟩
  | merged payload fault =>
      obtain ⟨-, -, hhead, hfault⟩ := enabled
      apply accounts.merge idle
      · apply List.eq_cons_of_mem_head? hhead
      · rw [← hfault]
        rfl
  | skipped =>
      rw [enabled.2.1] at huncleared
      contradiction
  | released => exact ⟨accounts.withQueue .free hpast hlines rfl, hsame⟩
  | cleared => contradiction

/-- A ledger accounts for all that happens along a path on which the table is not cleared. -/
theorem Accounts.path {start t t' : Table} {ledger : Ledger} {events : List Event}
    (idle : start.Idle) (accounts : Accounts start t ledger) (path : Path t events t')
    (h : .cleared ∉ events) :
  Accounts start t' (events.foldl Ledger.record ledger)
    ∧ (events.foldl Ledger.record ledger).settled
      = ledger.settled ++ events.filterMap Event.merge?
  := by
  induction path generalizing ledger with
  | nil => exact ⟨accounts, (List.append_nil _).symm⟩
  | @cons t t' event events enabled _ ih =>
      rw [List.mem_cons, not_or] at h
      obtain ⟨hact, hsettled⟩ := accounts.act idle enabled (Ne.symm h.1)
      obtain ⟨hpath, hsettled'⟩ := ih hact h.2
      use hpath
      rw [List.foldl_cons, hsettled', hsettled, List.append_assoc, List.filterMap_cons]
      cases event.merge? <;> rfl

theorem accounts_start (t : Table) :
  Accounts (t.withQueue [] .free) t (.ofWaiting t.pending)
  where
  lines := ⟨[], by simp [Ledger.Past], rfl⟩
  merged := by
    rw [Ledger.settled_ofWaiting]
    rfl
  faults := by
    rw [Ledger.settled_ofWaiting]
    rfl

end Table

/-! ### Scripts that do not clear the table -/

mutual

/-- Whether a table is cleared neither by a call nor while it lasts. -/
def Call.clearFree : Call → Bool
  | .add _ polls _ => Poll.clearFree polls
  | .clear => false
  | .look => true

/-- Whether a table is cleared by none of a number of calls. -/
def Call.clearFreeAll : List Call → Bool
  | [] => true
  | call :: calls => call.clearFree && Call.clearFreeAll calls

/-- Whether a table is cleared by no call that arrives during a script. -/
def Poll.clearFree : List Poll → Bool
  | [] => true
  | .mk calls _ :: polls => Call.clearFreeAll calls && Poll.clearFree polls

end

theorem Poll.clearFree_eq (rest : Bool) (polls : List Poll) :
  clearFree polls = (Call.clearFreeAll (next rest polls).calls && clearFree polls.tail)
  := by
  match polls with
  | [] => rfl
  | mk calls raised :: polls => rfl

namespace Table

theorem cleared_notMem_trace :
  (∀ t call, call.clearFree = true → .cleared ∉ events (trace t call))
    ∧ (∀ t calls, Call.clearFreeAll calls = true → .cleared ∉ events (traceAll t calls))
    ∧ ∀ t stage rest polls, Poll.clearFree polls = true →
      .cleared ∉ events (tracePolls t stage rest polls)
  := by
  have hresumed (t : Table) (stage : Stage) (raised : Bool) :
      .cleared ∉ t.resumed stage raised := by
    obtain ⟨events, hevents, hgate⟩ := t.resumed_eq stage raised
    rw [hevents, List.mem_cons, not_or]
    constructor
    · cases stage <;> apply Event.noConfusion
    · intro hmem
      have := hgate _ hmem
      contradiction
  apply run_induction
  case add =>
    intro t payload polls rest h hfree
    apply h hfree
  case clear =>
    intro t hfree
    contradiction
  case look =>
    intro t _
    simp [trace, events]
  case nil =>
    intro t _
    simp [traceAll, events]
  case cons =>
    intro t call calls first later hfree
    rw [Call.clearFreeAll, Bool.and_eq_true] at hfree
    rw [traceAll, events_append, List.mem_append, not_or]
    exact ⟨first hfree.1, later hfree.2⟩
  case poll =>
    intro t stage rest polls harrived hproceeds hfree
    rw [Poll.clearFree_eq rest polls, Bool.and_eq_true] at hfree
    rcases h : (t.runAll (Poll.next rest polls).calls).1.resume stage (Poll.next rest polls).raised
      with ⟨t', _ | stage', fault⟩
    · rw [tracePolls_of_returns h]
      simp [harrived hfree.1, hresumed]
    · rw [tracePolls_of_proceeds h]
      simp [harrived hfree.1, hresumed, hproceeds _ _ _ h hfree.2]

/-! ### The main result -/

/-- What explains the fate of a payload when all is over. -/
def Explained (t : Table) (history : List Event) (i : Nat) (payload : Payload) : Fate → Prop
  | .waiting => False
  | .merged _ => True
  | .rejected => ∃ before after, history = before ++ .arrived payload true :: after
    ∧ (t.ledger before).length = i
  | .dropped => ∃ before event after, history = before ++ event :: after ∧ event.raises = true
    ∧ (t.ledger before)[i]? = some (payload, .waiting)

/-- Producers that arrive in the middle of one another come to the same as producers that come
one after the other, in the order in which they brought their payloads.  A payload is left out
only if the first poll of its own producer, or a poll while it waited, found the signal raised. -/
theorem add_linearised {t : Table} (uncleared : t.cleared = false) (free : t.gate.held = false)
    {polls : List Poll} (clearFree : Poll.clearFree polls = true) (payload : Payload)
    (rest : Bool) :
  let call : Call := .add payload polls rest
  let history := events (t.trace call)
  let ledger := t.ledger history
  let merged := ledger.settled
  let brought := t.pending ++ history.filterMap Event.arrival?
  ledger.map (·.1) = brought
    ∧ (∀ before, before <+: history → ∃ t', Path t before t' ∧ t'.pending = (t.ledger before).waiting)
    ∧ merged = history.filterMap Event.merge?
    ∧ (merged.map (·.1)).Sublist brought
    ∧ t.discard.feed (merged.map (·.1)) = ((t.run call).after, merged.map (·.2))
    ∧ (∀ i payload fate, ledger[i]? = some (payload, fate) → Explained t history i payload fate)
    ∧ ((∀ event ∈ history, event.raises = false) → merged.map (·.1) = brought)
    ∧ ∀ (t' : Table) (call' : Call),
      (t'.run call').fault = (t'.trace call').findSome? (ownOf Event.fault?)
  := by
  intro call history ledger merged brought
  have hcleared : .cleared ∉ history := cleared_notMem_trace.1 t call clearFree
  have hstart : t.withQueue [] .free = t.discard := by
    rw [withQueue, discard, ← Gate.eq_free_iff.mpr free]
  have hidle : t.discard.Idle := ⟨rfl, Gate.eq_free_iff.mpr free, uncleared⟩
  have haccounts : Accounts t.discard t (.ofWaiting t.pending) := hstart ▸ accounts_start t
  have hpath : Path t history (t.run call).after := path_trace.1 t call
  have hpending : (t.run call).after.pending = [] :=
    t.pending_runPolls (.arriving payload) rest polls trivial (Gate.eq_free_iff.mpr free)
  have hgate : (t.run call).after.gate = .free :=
    (gate_run.1 t call).trans (Gate.eq_free_iff.mpr free)
  obtain ⟨hafter, hmerges⟩ := haccounts.path hidle hpath hcleared
  have hbrought : ledger.map (·.1) = brought := by
    apply (Ledger.map_fst_foldl_record _ _).trans
    simp [Ledger.ofWaiting, brought, Function.comp_def]
  have hexplained (i : Nat) (payload : Payload) (fate : Fate)
      (h : ledger[i]? = some (payload, fate)) : Explained t history i payload fate := by
    cases fate with
    | waiting =>
        obtain ⟨past, hpast, hlines⟩ := hafter.lines
        rw [hpending] at hlines
        have hledger : ledger = past := hlines.trans (List.append_nil _)
        apply hpast (payload, .waiting) _ rfl
        rw [← hledger]
        apply List.mem_of_getElem? h
    | merged fault => trivial
    | dropped => apply raised_of_dropped h
    | rejected => apply raised_of_rejected h
  use hbrought, ?prefixes, ?merges, hbrought ▸ ledger.settled_sublist, ?fed, hexplained, ?lowered,
    fault_trace
  case prefixes =>
    rintro before ⟨after, hhistory⟩
    rw [← hhistory] at hpath hcleared
    obtain ⟨t', hbefore, -⟩ := hpath.split
    rw [List.mem_append, not_or] at hcleared
    obtain ⟨past, hpast, hlines⟩ := (haccounts.path hidle hbefore hcleared.1).1.lines
    use t', hbefore
    apply (hpast.waiting_append t'.pending).symm.trans
    rw [← hlines]
    rfl
  case merges =>
    apply hmerges.trans
    rw [Ledger.settled_ofWaiting, List.nil_append]
  case fed =>
    have hmerged := hafter.merged
    rw [hpending, hgate, ← (hidle.feed _).eq_withQueue] at hmerged
    apply Prod.ext hmerged.symm hafter.faults
  case lowered =>
    intro hlowered
    rw [← hbrought]
    apply Ledger.settled_of_merged
    rintro ⟨payload, fate⟩ hentry
    obtain ⟨i, hi⟩ := List.mem_iff_getElem?.mp hentry
    have := hexplained i payload fate hi
    cases fate with
    | waiting => contradiction
    | merged fault => exact ⟨fault, rfl⟩
    | dropped =>
        obtain ⟨before, event, after, hhistory, hraises, -⟩ := this
        have := hlowered event (by simp [hhistory])
        rw [hraises] at this
        contradiction
    | rejected =>
        obtain ⟨before, after, hhistory, -⟩ := this
        have := hlowered (.arrived payload true) (by simp [hhistory])
        contradiction

/-- A second producer, whose payload is refused, comes before the first one is answered; a third
one, whose signal is raised, comes while the first one merges. -/
theorem add_linearised_three :
  let table := ofPlan ⟨1, none, some 0, []⟩ none .unbounded
  let first : Payload := .ofRows [⟨.detail .root, [some (.count 1)]⟩]
  let second : Payload := .ofRows [⟨.detail .root, []⟩]
  let third : Payload := .ofRows [⟨.detail .root, [some (.count 3)]⟩]
  let lowered : Poll := .mk [] false
  let polls : List Poll :=
    [.mk [.add second [lowered, lowered, lowered] false] false,
      .mk [.add third [.mk [] true] true] false, lowered]
  table.feed [second, first]
    = ((table.run (.add first polls false)).after,
      [some (.invalidData (.slotCount 0 1)), none])
  := by
  intro table first second third lowered polls
  have uncleared : table.cleared = false := rfl
  have free : table.gate.held = false := rfl
  have clearFree : Poll.clearFree polls = true := rfl
  obtain ⟨-, -, hmerges, -, hfed, -⟩ := add_linearised uncleared free clearFree first false
  have hhistory : (events (table.trace (.add first polls false))).filterMap Event.merge?
      = [(second, some (.invalidData (.slotCount 0 1))), (first, none)] := by
    decide +kernel
  rw [hmerges, hhistory] at hfed
  apply hfed

end Table

end Collate
