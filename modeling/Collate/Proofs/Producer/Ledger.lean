import Collate.Proofs.Producer.Trace
import Mathlib.Data.List.Induction

/-!
# What becomes of a payload

A ledger has one line for each payload that was brought to a table, in the order in which they
were brought.  Payloads are merged in that order, and a payload is left out only if a signal was
raised: at the first poll of its own producer, or at a later poll while it still waited.
-/

namespace Collate

/-- What has become of a payload. -/
inductive Fate where
  /-- It waits to be merged. -/
  | waiting
  /-- It was merged, or refused with an error. -/
  | merged (fault : Option Error)
  /-- It was dropped while it waited. -/
  | dropped
  /-- It was not queued. -/
  | rejected
  deriving DecidableEq

/-- A fate for each payload, in the order in which they were brought. -/
abbrev Ledger := List (Payload × Fate)

namespace Ledger

/-- The ledger of payloads that all wait. -/
def ofWaiting (payloads : List Payload) : Ledger :=
  payloads.map fun payload => (payload, .waiting)

/-- A payload that waits is dropped. -/
def dropWaiting (ledger : Ledger) : Ledger :=
  ledger.map fun entry => if entry.2 = .waiting then (entry.1, .dropped) else entry

/-- The first payload that waits is merged. -/
def mergeFirst (fault : Option Error) : Ledger → Ledger
  | [] => []
  | (payload, fate) :: ledger =>
    if fate = .waiting then (payload, .merged fault) :: ledger
    else (payload, fate) :: mergeFirst fault ledger

/-- The ledger after an event. -/
def record (ledger : Ledger) : Event → Ledger
  | .arrived payload raised =>
    if raised then ledger.dropWaiting ++ [(payload, .rejected)] else ledger ++ [(payload, .waiting)]
  | .answered raised => if raised then ledger.dropWaiting else ledger
  | .merged _ fault => ledger.mergeFirst fault
  | _ => ledger

/-- The payloads that were merged or refused, with the errors. -/
def settled (ledger : Ledger) : List (Payload × Option Error) :=
  ledger.filterMap fun entry =>
    match entry.2 with
    | .merged fault => some (entry.1, fault)
    | _ => none

/-- The payloads that wait. -/
def waiting (ledger : Ledger) : List Payload :=
  (ledger.filter fun entry => entry.2 = .waiting).map (·.1)

end Ledger

namespace Event

/-- The payload that a producer brings. -/
def arrival? : Event → Option Payload
  | arrived payload _ => some payload
  | _ => none

/-- The payload that is merged, with the error that comes of it. -/
def merge? : Event → Option (Payload × Option Error)
  | merged payload fault => some (payload, fault)
  | _ => none

/-- Whether a signal answers that it is raised. -/
def raises : Event → Bool
  | arrived _ raised => raised
  | answered raised => raised
  | _ => false

end Event

namespace Ledger

/-! ### What an event does to a line -/

/-- Merging the first waiting payload changes no line but one that waited. -/
theorem getElem?_mergeFirst {fault : Option Error} {ledger : Ledger} {i : Nat} {payload : Payload}
    {fate : Fate} (h : (ledger.mergeFirst fault)[i]? = some (payload, fate)) :
  ledger[i]? = some (payload, fate)
    ∨ (fate = .merged fault ∧ ledger[i]? = some (payload, .waiting))
  := by
  induction ledger generalizing i with
  | nil =>
      left
      apply h
  | cons entry ledger ih =>
      obtain ⟨payload', fate'⟩ := entry
      rw [mergeFirst] at h
      split at h
      next hwaiting =>
        cases i with
        | zero =>
            simp only [List.getElem?_cons_zero, Option.some.injEq, Prod.mk.injEq] at h ⊢
            obtain ⟨rfl, rfl⟩ := h
            right
            exact ⟨rfl, rfl, hwaiting⟩
        | succ i =>
            left
            apply h
      next =>
        cases i with
        | zero =>
            left
            apply h
        | succ i =>
            apply ih h

/-- Dropping what waits changes no line but those that waited. -/
theorem getElem?_dropWaiting {ledger : Ledger} {i : Nat} {payload : Payload} {fate : Fate}
    (h : ledger.dropWaiting[i]? = some (payload, fate)) :
  ledger[i]? = some (payload, fate)
    ∨ (fate = .dropped ∧ ledger[i]? = some (payload, .waiting))
  := by
  rw [dropWaiting, List.getElem?_map, Option.map_eq_some_iff] at h
  obtain ⟨⟨payload', fate'⟩, hentry, heq⟩ := h
  split at heq
  next hwaiting =>
    obtain ⟨rfl, rfl⟩ := Prod.mk.inj heq
    right
    rw [hentry]
    exact ⟨rfl, by rw [← hwaiting]⟩
  next =>
    left
    rw [hentry, heq]

/-- A line of a lengthened ledger is an old line or the last one. -/
theorem getElem?_concat {ledger : Ledger} {entry entry' : Payload × Fate} {i : Nat}
    (h : (ledger ++ [entry])[i]? = some entry') :
  ledger[i]? = some entry' ∨ (entry' = entry ∧ i = ledger.length)
  := by
  rw [List.getElem?_append] at h
  split at h
  · left
    apply h
  next hlength =>
    obtain ⟨hi, rfl⟩ := List.getElem?_eq_some_iff.mp h
    rw [List.length_singleton] at hi
    right
    constructor
    · apply List.getElem_singleton
    · omega

@[simp]
theorem length_dropWaiting (ledger : Ledger) :
  ledger.dropWaiting.length = ledger.length
  := List.length_map _

/-- What an event can make of a line: it appears with an arrival, and it changes when its payload
is merged, or when it waits and a signal is raised. -/
inductive Line (ledger : Ledger) (event : Event) (i : Nat) (payload : Payload) : Fate → Prop where
  | kept {fate : Fate} (same : ledger[i]? = some (payload, fate)) : Line ledger event i payload fate
  | queued (arrived : event = .arrived payload false) (last : i = ledger.length) :
    Line ledger event i payload .waiting
  | rejected (arrived : event = .arrived payload true) (last : i = ledger.length) :
    Line ledger event i payload .rejected
  | dropped (raised : event.raises = true) (waited : ledger[i]? = some (payload, .waiting)) :
    Line ledger event i payload .dropped
  | merged (fault : Option Error) (waited : ledger[i]? = some (payload, .waiting)) :
    Line ledger event i payload (.merged fault)

/-- Every line of a ledger comes about in one of the ways in which an event changes lines. -/
theorem line_record {ledger : Ledger} {event : Event} {i : Nat} {payload : Payload} {fate : Fate}
    (h : (ledger.record event)[i]? = some (payload, fate)) :
  Line ledger event i payload fate
  := by
  have hdrop {event : Event} (hraises : event.raises = true)
      (h : ledger.dropWaiting[i]? = some (payload, fate)) : Line ledger event i payload fate := by
    obtain hsame | ⟨rfl, hwaited⟩ := getElem?_dropWaiting h
    · apply Line.kept hsame
    · apply Line.dropped hraises hwaited
  cases event with
  | arrived payload' raised =>
      cases raised with
      | false =>
          obtain hsame | ⟨hnew, hi⟩ := getElem?_concat h
          · apply Line.kept hsame
          · obtain ⟨rfl, rfl⟩ := Prod.mk.inj hnew
            apply Line.queued rfl hi
      | true =>
          obtain hold | ⟨hnew, hi⟩ := getElem?_concat h
          · apply hdrop rfl hold
          · obtain ⟨rfl, rfl⟩ := Prod.mk.inj hnew
            rw [length_dropWaiting] at hi
            apply Line.rejected rfl hi
  | answered raised =>
      cases raised with
      | false => apply Line.kept h
      | true => apply hdrop rfl h
  | merged _ fault =>
      obtain hsame | ⟨rfl, hwaited⟩ := getElem?_mergeFirst h
      · apply Line.kept hsame
      · apply Line.merged fault hwaited
  | asked => apply Line.kept h
  | acquired => apply Line.kept h
  | skipped => apply Line.kept h
  | released => apply Line.kept h
  | cleared => apply Line.kept h

/-! ### The payloads of a ledger -/

theorem map_fst_mergeFirst (fault : Option Error) (ledger : Ledger) :
  (ledger.mergeFirst fault).map (·.1) = ledger.map (·.1)
  := by
  induction ledger with
  | nil => rfl
  | cons entry ledger ih =>
      rw [mergeFirst]
      split
      · rfl
      · rw [List.map_cons, ih, List.map_cons]

theorem map_fst_dropWaiting (ledger : Ledger) :
  ledger.dropWaiting.map (·.1) = ledger.map (·.1)
  := by
  rw [dropWaiting, List.map_map]
  apply List.map_congr_left
  intro entry _
  rw [Function.comp_apply]
  split <;> rfl

/-- Recording an event keeps the payloads of a ledger and adds the one that arrives. -/
theorem map_fst_record (ledger : Ledger) (event : Event) :
  (ledger.record event).map (·.1) = ledger.map (·.1) ++ event.arrival?.toList
  := by
  have hsame : ledger.map (·.1) = ledger.map (·.1) ++ none.toList := (List.append_nil _).symm
  cases event with
  | arrived payload raised =>
      cases raised with
      | true =>
          apply List.map_append.trans
          rw [map_fst_dropWaiting]
          rfl
      | false => apply List.map_append
  | answered raised =>
      cases raised with
      | true => apply (map_fst_dropWaiting ledger).trans hsame
      | false => apply hsame
  | merged payload fault => apply (map_fst_mergeFirst fault ledger).trans hsame
  | asked => apply hsame
  | acquired => apply hsame
  | skipped => apply hsame
  | released => apply hsame
  | cleared => apply hsame

/-- The payloads of a ledger are those it began with and, in order, those that arrived. -/
theorem map_fst_foldl_record (ledger : Ledger) (events : List Event) :
  (events.foldl record ledger).map (·.1)
    = ledger.map (·.1) ++ events.filterMap Event.arrival?
  := by
  induction events generalizing ledger with
  | nil => apply (List.append_nil _).symm
  | cons event events ih =>
      rw [List.foldl_cons, ih, map_fst_record, List.append_assoc, List.filterMap_cons]
      cases event.arrival? <;> rfl

/-- Payloads are settled in the order in which they were brought. -/
theorem settled_sublist (ledger : Ledger) :
  (ledger.settled.map (·.1)).Sublist (ledger.map (·.1))
  := by
  induction ledger with
  | nil => apply List.Sublist.refl
  | cons entry ledger ih =>
      obtain ⟨payload, fate⟩ := entry
      cases fate with
      | merged fault => apply ih.cons_cons payload
      | waiting => apply ih.cons payload
      | dropped => apply ih.cons payload
      | rejected => apply ih.cons payload

/-- If all payloads were merged then all are settled. -/
theorem settled_of_merged {ledger : Ledger}
    (h : ∀ entry ∈ ledger, ∃ fault, entry.2 = .merged fault) :
  ledger.settled.map (·.1) = ledger.map (·.1)
  := by
  induction ledger with
  | nil => rfl
  | cons entry ledger ih =>
      rw [List.forall_mem_cons] at h
      obtain ⟨payload, fate⟩ := entry
      obtain ⟨⟨fault, rfl⟩, hledger⟩ := h
      apply congrArg (payload :: ·) (ih hledger)

/-! ### Ledgers in which the payloads that wait come last -/

/-- Whether nothing in a ledger waits. -/
def Past (ledger : Ledger) : Prop :=
  ∀ entry ∈ ledger, entry.2 ≠ .waiting

/-- What two ledgers have settled is what the one has and then what the other has. -/
@[simp]
theorem settled_append (ledger ledger' : Ledger) :
  settled (ledger ++ ledger') = settled ledger ++ settled ledger'
  := List.filterMap_append

@[simp]
theorem settled_ofWaiting (payloads : List Payload) :
  (ofWaiting payloads).settled = []
  := by
  simp [settled, ofWaiting]

theorem settled_dropWaiting (ledger : Ledger) :
  ledger.dropWaiting.settled = ledger.settled
  := by
  rw [settled, dropWaiting, List.filterMap_map]
  apply List.filterMap_congr
  rintro ⟨payload, fate⟩ _
  cases fate <;> rfl

/-- Nothing waits once what waits was dropped. -/
theorem past_dropWaiting (ledger : Ledger) :
  ledger.dropWaiting.Past
  := by
  intro entry hentry
  obtain ⟨⟨payload, fate⟩, -, rfl⟩ := List.mem_map.mp hentry
  cases fate <;> simp

/-- A past ledger stays past with a payload that does not wait. -/
theorem Past.concat {past : Ledger} (h : past.Past) {entry : Payload × Fate}
    (hentry : entry.2 ≠ .waiting) :
  Past (past ++ [entry])
  := by
  rw [Past, List.forall_mem_append, List.forall_mem_singleton]
  exact ⟨h, hentry⟩

/-- Behind a past ledger the waiting payloads are those added as waiting. -/
theorem Past.waiting_append {past : Ledger} (h : past.Past) (payloads : List Payload) :
  waiting (past ++ ofWaiting payloads) = payloads
  := by
  have hpast : past.filter (fun entry => entry.2 = .waiting) = [] := by
    rw [List.filter_eq_nil_iff]
    intro entry hentry
    simpa using h entry hentry
  rw [waiting, List.filter_append, hpast]
  simp [ofWaiting, List.filter_map, Function.comp_def]

/-- Behind a past ledger the first of the waiting payloads is the one merged. -/
theorem Past.mergeFirst_append {past : Ledger} (h : past.Past) (fault : Option Error)
    (payload : Payload) (payloads : List Payload) :
  mergeFirst fault (past ++ ofWaiting (payload :: payloads))
    = past ++ [(payload, .merged fault)] ++ ofWaiting payloads
  := by
  induction past with
  | nil => rfl
  | cons entry past ih =>
      have hentry : entry.2 ≠ .waiting := h entry List.mem_cons_self
      have hpast : Past past := fun entry hentry => h entry (List.mem_cons_of_mem _ hentry)
      rw [List.cons_append, mergeFirst, if_neg hentry, ih hpast]
      rfl

end Ledger

namespace Table

/-- What has become of the payloads that waited at a table and of those brought since. -/
def ledger (t : Table) (events : List Event) : Ledger :=
  events.foldl Ledger.record (.ofWaiting t.pending)

theorem ledger_concat (t : Table) (events : List Event) (event : Event) :
  t.ledger (events ++ [event]) = (t.ledger events).record event
  := by
  simp [ledger]

/-! ### Why payloads are left out -/

/-- A dropped payload waited when a signal was raised. -/
theorem raised_of_dropped {t : Table} {events : List Event} {i : Nat} {payload : Payload}
    (h : (t.ledger events)[i]? = some (payload, .dropped)) :
  ∃ before event after, events = before ++ event :: after ∧ event.raises = true
    ∧ (t.ledger before)[i]? = some (payload, .waiting)
  := by
  induction events using List.reverseRecOn with
  | nil => simp [ledger, Ledger.ofWaiting] at h
  | append_singleton events event ih =>
      rw [ledger_concat] at h
      cases Ledger.line_record h with
      | kept same =>
          obtain ⟨before, event', after, rfl, hraises, hwaited⟩ := ih same
          use before, event', after ++ [event]
          simp [hraises, hwaited]
      | dropped raised waited => use events, event, []

/-- A payload was rejected when its own producer first asked. -/
theorem raised_of_rejected {t : Table} {events : List Event} {i : Nat} {payload : Payload}
    (h : (t.ledger events)[i]? = some (payload, .rejected)) :
  ∃ before after, events = before ++ .arrived payload true :: after
    ∧ (t.ledger before).length = i
  := by
  induction events using List.reverseRecOn with
  | nil => simp [ledger, Ledger.ofWaiting] at h
  | append_singleton events event ih =>
      rw [ledger_concat] at h
      cases Ledger.line_record h with
      | kept same =>
          obtain ⟨before, after, rfl, hlength⟩ := ih same
          use before, after ++ [event]
          simp [hlength]
      | rejected arrived last =>
          use events, []
          rw [arrived, last]
          exact ⟨rfl, rfl⟩

end Table

end Collate
