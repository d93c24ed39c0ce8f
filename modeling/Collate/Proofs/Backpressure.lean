import Collate.Queue
import Mathlib.Data.List.Perm.Basic
import Mathlib.Tactic.Use

/-!
# Backpressure

At a bounded queue any number of producers may be held back at a time, and each of them may try
again at any moment.  Whatever comes to pass there, and in whichever order, is a sequence of acts
that are done one at a time.  An act lets in, drains and keeps back what it says and nothing else,
hence so does a sequence of them: what was drained and what is queued is what was let in, in that
order, and whatever was offered has been let in or refused, or is held back.
-/

namespace Collate

namespace BoundedQueue

open scoped List

variable {α : Type}

/-! ### Producers at a queue -/

/-- A queue, and the items of the producers that it holds back. -/
structure Site (α : Type) where
  queue : BoundedQueue α
  waiting : List α

/-- What is done at a queue, one thing at a time. -/
inductive Act (α : Type) where
  /-- A producer comes with an item. -/
  | offer (item : α)
  /-- One of the producers that are held back tries again. -/
  | retry (place : ℕ)
  | drain
  | raise

/-- What an act comes to. -/
inductive Event (α : Type) where
  | tried (item : α) (admission : Admission)
  | drained (items : List α)
  | raised (first : Bool)
  /-- Nobody is held back at that place. -/
  | nothing
  deriving DecidableEq

namespace Site

/-- A queue at which nothing has been done. -/
def start (capacity : ℕ) (linked : Bool) : Site α :=
  ⟨ofCapacity capacity linked, []⟩

/-- A producer tries to get its item in.  It is held back together with the others if it has to
wait. -/
def attempt (q : BoundedQueue α) (x : α) (others together : List α) : Site α × Event α :=
  let (q, admission) := q.offer x
  (⟨q, if admission = .blocked then together else others⟩, .tried x admission)

def step (s : Site α) : Act α → Site α × Event α
  | .offer x => attempt s.queue x s.waiting (s.waiting ++ [x])
  | .retry place =>
    match s.waiting[place]? with
    | none => (s, .nothing)
    | some x => attempt s.queue x (s.waiting.eraseIdx place) s.waiting
  | .drain => (⟨s.queue.drain.1, s.waiting⟩, .drained s.queue.drain.2)
  | .raise => (⟨s.queue.raise.1, s.waiting⟩, .raised s.queue.raise.2)

def run (s : Site α) : List (Act α) → Site α × List (Event α)
  | [] => (s, [])
  | act :: acts =>
    let (s, event) := s.step act
    let (s, events) := s.run acts
    (s, event :: events)

end Site

/-- The items with which producers came. -/
def offered (acts : List (Act α)) : List α :=
  acts.filterMap fun
    | .offer x => some x
    | _ => none

/-- The items that were let in. -/
def accepted (events : List (Event α)) : List α :=
  events.filterMap fun
    | .tried x .accepted => some x
    | _ => none

/-- The items that were refused. -/
def refused (events : List (Event α)) : List α :=
  events.filterMap fun
    | .tried x .refused => some x
    | _ => none

/-- The items of all drains. -/
def drained (events : List (Event α)) : List α :=
  events.flatMap fun
    | .drained items => items
    | _ => []

theorem offered_append (acts acts' : List (Act α)) :
  offered (acts ++ acts') = offered acts ++ offered acts'
  := List.filterMap_append

section

variable (events events' : List (Event α))

theorem accepted_append :
  accepted (events ++ events') = accepted events ++ accepted events'
  := List.filterMap_append

theorem refused_append :
  refused (events ++ events') = refused events ++ refused events'
  := List.filterMap_append

theorem drained_append :
  drained (events ++ events') = drained events ++ drained events'
  := List.flatMap_append

end

/-! ### A single offer -/

theorem offer_cases (q : BoundedQueue α) (x : α) :
  (q.items.length < q.capacity ∧ q.offer x = ({ q with items := q.items ++ [x] }, .accepted))
    ∨ (q.capacity ≤ q.items.length ∧ (q.linked = true ∧ q.signal.raised = true)
      ∧ q.offer x = (q, .refused))
    ∨ (q.capacity ≤ q.items.length ∧ ¬ (q.linked = true ∧ q.signal.raised = true)
      ∧ q.offer x = (q, .blocked))
  := by
  rw [offer, isFull, isTerminated]
  by_cases full : q.capacity ≤ q.items.length
  · right
    by_cases terminated : q.linked = true ∧ q.signal.raised = true
    · left
      simp [full, terminated]
    · right
      simp [full, terminated]
  · left
    simp [full, Nat.lt_of_not_le full]

/-- An item that is offered after a drain stands alone. -/
theorem offer_drain {q : BoundedQueue α} (hcapacity : 0 < q.capacity) (x : α) :
  q.drain.1.offer x = ({ q with items := [x] }, .accepted)
  := by
  obtain ⟨-, hoffer⟩ | ⟨full, -⟩ | ⟨full, -⟩ := q.drain.1.offer_cases x
  · apply hoffer
  · exact absurd full (Nat.not_le_of_lt hcapacity)
  · exact absurd full (Nat.not_le_of_lt hcapacity)

/-- A drain lets in who contends with it. -/
theorem contend_drain {q : BoundedQueue α} (hcapacity : 0 < q.capacity) {x : α}
    (hblocked : (q.offer x).2 = .blocked) :
  q.contend x .drain = ({ q with items := [x] }, .accepted, .inl q.items)
  := by
  have hoffer : q.offer x = (q, .blocked) := by
    obtain ⟨-, hoffer⟩ | ⟨-, -, hoffer⟩ | ⟨-, -, hoffer⟩ := q.offer_cases x
    · simp [hoffer] at hblocked
    · simp [hoffer] at hblocked
    · apply hoffer
  simp [contend, hoffer, offer_drain hcapacity x]
  rfl

namespace Site

/-- What acts make of a site: nothing is lost, repeated or put before what came earlier. -/
structure Conserves (s : Site α) (acts : List (Act α)) (s' : Site α) (events : List (Event α)) :
    Prop where
  capacity : s'.queue.capacity = s.queue.capacity
  linked : s'.queue.linked = s.queue.linked
  raised : s'.queue.signal.raised = true ↔ s.queue.signal.raised = true ∨ .raise ∈ acts
  bounded : s.queue.items.length ≤ s.queue.capacity → s'.queue.items.length ≤ s.queue.capacity
  order : drained events ++ s'.queue.items = s.queue.items ++ accepted events
  settled : s.waiting ++ offered acts ~ accepted events ++ refused events ++ s'.waiting

theorem conserves_nil (s : Site α) :
  Conserves s [] s []
  where
    capacity := rfl
    linked := rfl
    raised := by simp
    bounded := id
    order := by simp [drained, accepted]
    settled := by simp [offered, accepted, refused]

theorem Conserves.append {s s' s'' : Site α} {acts acts' : List (Act α)}
    {events events' : List (Event α)} (h : Conserves s acts s' events)
    (h' : Conserves s' acts' s'' events') :
  Conserves s (acts ++ acts') s'' (events ++ events')
  where
    capacity := h'.capacity.trans h.capacity
    linked := h'.linked.trans h.linked
    raised := by rw [h'.raised, h.raised, List.mem_append, or_assoc]
    bounded := by
      intro hs
      rw [← h.capacity]
      apply h'.bounded
      rw [h.capacity]
      apply h.bounded hs
    order := by
      rw [drained_append, accepted_append, List.append_assoc, h'.order, ← List.append_assoc,
        h.order, List.append_assoc]
    settled := by
      rw [offered_append, accepted_append, refused_append]
      calc s.waiting ++ (offered acts ++ offered acts')
          = (s.waiting ++ offered acts) ++ offered acts' := (List.append_assoc _ _ _).symm
        _ ~ (accepted events ++ refused events ++ s'.waiting) ++ offered acts' :=
          h.settled.append_right _
        _ = (accepted events ++ refused events) ++ (s'.waiting ++ offered acts') :=
          List.append_assoc _ _ _
        _ ~ (accepted events ++ refused events)
              ++ (accepted events' ++ refused events' ++ s''.waiting) :=
          h'.settled.append_left _
        _ = accepted events
              ++ (refused events ++ (accepted events' ++ (refused events' ++ s''.waiting))) := by
          simp only [List.append_assoc]
        _ ~ accepted events
              ++ (accepted events' ++ (refused events ++ (refused events' ++ s''.waiting))) :=
          (List.perm_append_comm_assoc _ _ _).append_left _
        _ = accepted events ++ accepted events' ++ (refused events ++ refused events')
              ++ s''.waiting := by
          simp only [List.append_assoc]

/-- An attempt lets the item in behind all others, or leaves the queue as it was. -/
theorem conserves_attempt {s : Site α} {act : Act α} (hact : act ≠ .raise) {x : α}
    {others together : List α} (htogether : together ~ x :: others)
    (hoffered : s.waiting ++ offered [act] ~ x :: others) :
  Conserves s [act] (attempt s.queue x others together).1 [(attempt s.queue x others together).2]
  := by
  have hraised : s.queue.signal.raised = true ↔ s.queue.signal.raised = true ∨ .raise ∈ [act] := by
    simp [hact.symm]
  obtain ⟨room, hoffer⟩ | ⟨-, -, hoffer⟩ | ⟨-, -, hoffer⟩ := s.queue.offer_cases x
  · rw [attempt, hoffer]
    refine ⟨rfl, rfl, hraised, ?_, ?_, ?_⟩
    · intro _
      rw [List.length_append]
      apply room
    · simp [drained, accepted]
    · apply hoffered
  · rw [attempt, hoffer]
    refine ⟨rfl, rfl, hraised, id, ?_, ?_⟩
    · simp [drained, accepted]
    · apply hoffered
  · rw [attempt, hoffer]
    refine ⟨rfl, rfl, hraised, id, ?_, ?_⟩
    · simp [drained, accepted]
    · apply hoffered.trans htogether.symm

theorem conserves_step (s : Site α) (act : Act α) :
  Conserves s [act] (s.step act).1 [(s.step act).2]
  := by
  cases act with
  | offer x =>
      apply conserves_attempt (by simp) (List.perm_append_singleton x s.waiting)
      apply List.perm_append_singleton x s.waiting
  | retry place =>
      rw [step]
      cases hplace : s.waiting[place]? with
      | none =>
          refine ⟨rfl, rfl, by simp, id, ?_, ?_⟩
          · simp [drained, accepted]
          · simp [offered, accepted, refused]
      | some x =>
          obtain ⟨hlt, rfl⟩ := List.getElem?_eq_some_iff.mp hplace
          have hperm := (List.getElem_cons_eraseIdx_perm hlt).symm
          apply conserves_attempt (by simp) hperm
          simpa [offered] using hperm
  | drain =>
      refine ⟨rfl, rfl, by simp [step, BoundedQueue.drain], ?_, ?_, ?_⟩
      · intro _
        apply Nat.zero_le
      · simp [drained, accepted, step, BoundedQueue.drain]
      · simp [offered, accepted, refused, step]
  | raise =>
      refine ⟨rfl, rfl, by simp [step, BoundedQueue.raise, Signal.raise], id, ?_, ?_⟩
      · simp [drained, accepted, step, BoundedQueue.raise]
      · simp [offered, accepted, refused, step]

theorem run_cons (s : Site α) (act : Act α) (acts : List (Act α)) :
  s.run (act :: acts)
    = (((s.step act).1.run acts).1, (s.step act).2 :: ((s.step act).1.run acts).2)
  := rfl

theorem conserves_run (s : Site α) (acts : List (Act α)) :
  Conserves s acts (s.run acts).1 (s.run acts).2
  := by
  induction acts generalizing s with
  | nil => apply conserves_nil
  | cons act acts ih =>
      rw [run_cons]
      apply (s.conserves_step act).append (ih (s.step act).1)

theorem length_step_le (s : Site α) (act : Act α) :
  (s.step act).1.queue.items.length ≤ s.queue.items.length + 1
  := by
  have horder := congrArg List.length (s.conserves_step act).order
  have haccepted : (accepted [(s.step act).2]).length ≤ 1 := List.length_filterMap_le _ _
  rw [List.length_append, List.length_append] at horder
  omega

/-! ### What becomes of an attempt -/

/-- Whoever tries, whether for the first time or again, offers the item to the queue. -/
theorem offer_of_tried {s : Site α} {act : Act α} {x : α} {admission : Admission}
    (h : (s.step act).2 = .tried x admission) :
  s.queue.offer x = ((s.step act).1.queue, admission)
  := by
  cases act with
  | offer y =>
      obtain ⟨rfl, rfl⟩ := Event.tried.inj h
      rfl
  | retry place =>
      rw [step] at h ⊢
      cases hplace : s.waiting[place]? with
      | none =>
          rw [hplace] at h
          contradiction
      | some y =>
          rw [hplace] at h
          obtain ⟨rfl, rfl⟩ := Event.tried.inj h
          rfl
  | drain => contradiction
  | raise => contradiction

/-- Where there is room for all attempts, each of them lets its item in. -/
theorem accepted_of_length_le {s : Site α} {acts : List (Act α)}
    (room : s.queue.items.length + acts.length ≤ s.queue.capacity) {x : α} {admission : Admission}
    (h : .tried x admission ∈ (s.run acts).2) :
  admission = .accepted
  := by
  induction acts generalizing s with
  | nil => contradiction
  | cons act acts ih =>
      rw [List.length_cons] at room
      rw [run_cons, List.mem_cons] at h
      obtain h | h := h
      · obtain ⟨-, hoffer⟩ | ⟨full, -⟩ | ⟨full, -⟩ := s.queue.offer_cases x
        · rw [offer_of_tried h.symm, Prod.mk.injEq] at hoffer
          apply hoffer.2
        · omega
        · omega
      · apply ih _ h
        have := s.length_step_le act
        rw [(s.conserves_step act).capacity]
        omega

/-- A producer that is held back gets its item in if it tries first after a drain. -/
theorem retry_drain {s : Site α} (hcapacity : 0 < s.queue.capacity) {place : ℕ} {x : α}
    (hplace : s.waiting[place]? = some x) :
  (s.step .drain).1.step (.retry place)
    = (⟨{ s.queue with items := [x] }, s.waiting.eraseIdx place⟩, .tried x .accepted)
  := by
  simp [step, hplace, attempt, offer_drain hcapacity x]

end Site

/-- Relief as an act. -/
def Act.ofRelief : Relief → Act α
  | .drain => .drain
  | .raise => .raise

/-- What relief comes to, as an event. -/
def Event.ofEffect : List α ⊕ Bool → Event α
  | .inl items => .drained items
  | .inr first => .raised first

/-- A producer that contends with the relief comes, and tries again after it if it was held back.
Whoever is held back stands behind all others that are. -/
theorem Site.run_contend (s : Site α) (x : α) (relief : Relief) :
  let contended := s.queue.contend x relief
  s.run [.offer x, .ofRelief relief, .retry s.waiting.length]
    = (⟨contended.1, if contended.2.1 = .blocked then s.waiting ++ [x] else s.waiting⟩,
      [.tried x (s.queue.offer x).2, .ofEffect contended.2.2,
        if (s.queue.offer x).2 = .blocked then .tried x contended.2.1 else .nothing])
  := by
  have herase : (s.waiting ++ [x]).eraseIdx s.waiting.length = s.waiting := by
    simp [List.eraseIdx_append_of_length_le]
  rcases s.queue.offer_cases x with ⟨-, hoffer⟩ | ⟨-, -, hoffer⟩ | ⟨-, -, hoffer⟩ <;>
    cases relief <;>
    simp [contend, hoffer, Site.run, Site.step, Site.attempt, Act.ofRelief, Event.ofEffect, herase]

/-- Whatever is done at a queue by however many producers, there are never more items than its
capacity, and what was drained, followed by what is queued, is what was let in, in that order.
Whatever was offered was let in or refused, or its producer is held back.  An attempt succeeds
exactly if there is room, behind all that is queued, and is refused exactly if there is none and a
linked signal was raised; unless it succeeds it leaves the queue as it was.  After a drain as many
attempts succeed as the queue has room for, that of a producer that was held back among them, and
nothing stands before it that was there before.  A producer that contends with a drain or with the
signal does no more than come, and try again afterwards. -/
theorem drained_append_queued_eq_accepted (capacity : ℕ) (linked : Bool) (acts : List (Act α)) :
  let s := ((Site.start capacity linked).run acts).1
  let events := ((Site.start capacity linked).run acts).2
  s.queue.items.length ≤ max capacity 1
    ∧ drained events ++ s.queue.items = accepted events
    ∧ offered acts ~ accepted events ++ refused events ++ s.waiting
    ∧ (∀ act x admission, (s.step act).2 = .tried x admission →
      (admission = .accepted ↔ s.queue.items.length < max capacity 1)
        ∧ (admission = .refused
          ↔ s.queue.items.length = max capacity 1 ∧ linked = true ∧ .raise ∈ acts)
        ∧ (s.step act).1.queue
          = if admission = .accepted then { s.queue with items := s.queue.items ++ [x] }
            else s.queue)
    ∧ (∀ place x, s.waiting[place]? = some x →
      (s.step .drain).1.step (.retry place)
        = (⟨{ s.queue with items := [x] }, s.waiting.eraseIdx place⟩, .tried x .accepted))
    ∧ (∀ more : List (Act α), more.length ≤ max capacity 1 →
      ∀ x admission, .tried x admission ∈ ((s.step .drain).1.run more).2 → admission = .accepted)
    ∧ (∀ x, (s.queue.offer x).2 = .blocked →
      s.queue.contend x .drain = ({ s.queue with items := [x] }, .accepted, .inl s.queue.items))
    ∧ ∀ x relief,
      let contended := s.queue.contend x relief
      s.run [.offer x, .ofRelief relief, .retry s.waiting.length]
        = (⟨contended.1, if contended.2.1 = .blocked then s.waiting ++ [x] else s.waiting⟩,
          [.tried x (s.queue.offer x).2, .ofEffect contended.2.2,
            if (s.queue.offer x).2 = .blocked then .tried x contended.2.1 else .nothing])
  := by
  intro s events
  have h : Site.Conserves (Site.start capacity linked) acts s events :=
    (Site.start capacity linked).conserves_run acts
  have hcapacity : s.queue.capacity = max capacity 1 := h.capacity
  have hbounded : s.queue.items.length ≤ max capacity 1 := h.bounded (Nat.zero_le _)
  have hlinked : s.queue.linked = linked := h.linked
  have hraised : s.queue.signal.raised = true ↔ .raise ∈ acts := by
    simpa [Site.start, ofCapacity, Signal.lowered] using h.raised
  have hpositive : 0 < s.queue.capacity := by omega
  refine ⟨hbounded, h.order, h.settled, ?tried, fun place x => Site.retry_drain hpositive, ?room,
    fun x => contend_drain hpositive, s.run_contend⟩
  case tried =>
    intro act x admission htried
    have hoffer := Site.offer_of_tried htried
    rw [← hcapacity, ← hlinked, ← hraised]
    obtain ⟨room, haccepted⟩ | ⟨full, terminated, hrefused⟩ | ⟨full, terminated, hblocked⟩ :=
      s.queue.offer_cases x
    · obtain ⟨hqueue, rfl⟩ := Prod.mk.inj (hoffer.symm.trans haccepted)
      have hfull : ¬ (s.queue.items.length = s.queue.capacity
          ∧ s.queue.linked = true ∧ s.queue.signal.raised = true) := by
        rintro ⟨hlength, -⟩
        omega
      exact ⟨iff_of_true rfl room, iff_of_false (by simp) hfull, hqueue⟩
    · obtain ⟨hqueue, rfl⟩ := Prod.mk.inj (hoffer.symm.trans hrefused)
      have hfull : s.queue.items.length = s.queue.capacity := by omega
      exact ⟨iff_of_false (by simp) (Nat.not_lt_of_le full), iff_of_true rfl ⟨hfull, terminated⟩,
        hqueue⟩
    · obtain ⟨hqueue, rfl⟩ := Prod.mk.inj (hoffer.symm.trans hblocked)
      exact ⟨iff_of_false (by simp) (Nat.not_lt_of_le full),
        iff_of_false (by simp) fun h => terminated h.2, hqueue⟩
  case room =>
    intro more hmore x admission
    apply Site.accepted_of_length_le
    have hempty : (s.step .drain).1.queue.items.length = 0 := rfl
    rw [hempty, (s.conserves_step .drain).capacity, hcapacity, Nat.zero_add]
    apply hmore

example :
  ((Site.start 0 true).run [.offer 1, .offer 2, .offer 3, .drain, .retry 1, .raise, .retry 0]).2
    = [.tried 1 .accepted, .tried 2 .blocked, .tried 3 .blocked, .drained [1], .tried 3 .accepted,
      .raised true, .tried 2 .refused]
  := by decide

end BoundedQueue

end Collate
