import Mathlib.Order.Bounds.Basic
import Collate.Proofs.ChildMap
import Collate.Proofs.LiveSearches

/-!
# Stores and those who hold them

A pool does not keep a store alive.  Whoever makes a store or finds it has a handle on it, handles
can be shared, and a store is let go of when its last handle is.  What a pool finds is compared with
a ledger that knows nothing of entries that are replaced or forgotten: it has the keys of the stores
that were made, in their order, and the handles that there are.

Sharing is part of the comparison because a store may have any number of holders, who let go of it
in any order.
-/

namespace Collate

namespace StorePool

/-- What is done to a pool by those who use it. -/
inductive Act where
  | create (request : SearchRequest)
  /-- Looks for the store of a key, and keeps the handle on what is found. -/
  | find (key : QueryKey)
  /-- Makes another handle on a store from one that there is. -/
  | share (number : Nat)
  /-- Lets go of one handle on a store, if there is one. -/
  | release (number : Nat)

/-- A pool, and the numbers of the stores on which there are handles, once for each handle. -/
structure Holding where
  pool : StorePool
  handles : List Nat

namespace Holding

def empty : Holding := ⟨.empty, []⟩

def perform (u : Holding) : Act → Holding
  | .create request =>
    match u.pool.create request with
    | (pool, .ok number) => ⟨pool, u.handles ++ [number]⟩
    | (pool, .error _) => ⟨pool, u.handles⟩
  | .find key => { u with handles := u.handles ++ (u.pool.find? key).toList }
  | .share number =>
    if number ∈ u.handles then { u with handles := u.handles ++ [number] } else u
  | .release number =>
    let handles := u.handles.erase number
    ⟨if number ∈ handles then u.pool else (u.pool.release number).1, handles⟩

/-- A new pool after acts that are done one after the other. -/
def after (acts : List Act) : Holding :=
  acts.foldl perform empty

theorem after_concat (acts : List Act) (act : Act) :
  after (acts ++ [act]) = (after acts).perform act
  := List.foldl_concat ..

end Holding

/-- The last place at which a key is among others. -/
def newest? (key : QueryKey) (made : List QueryKey) : Option Nat :=
  (made.zipIdx.filter (·.1 = key)).getLast?.map (·.2)

/-- The keys of the stores that were made, and the handles on them. -/
structure Ledger where
  /-- The key of every store made, by its number. -/
  made : List QueryKey
  handles : List Nat

namespace Ledger

def empty : Ledger := ⟨[], []⟩

/-- The store last made for a key, as long as there is a handle on it. -/
def find? (l : Ledger) (key : QueryKey) : Option Nat :=
  (newest? key l.made).filter (· ∈ l.handles)

def perform (l : Ledger) : Act → Ledger
  | .create request =>
    match SearchStore.create request with
    | .ok _ => ⟨l.made ++ [request.key], l.handles ++ [l.made.length]⟩
    | .error _ => l
  | .find key => { l with handles := l.handles ++ (l.find? key).toList }
  | .share number =>
    if number ∈ l.handles then { l with handles := l.handles ++ [number] } else l
  | .release number => { l with handles := l.handles.erase number }

/-- An empty ledger after acts that are done one after the other. -/
def after (acts : List Act) : Ledger :=
  acts.foldl perform empty

theorem after_concat (acts : List Act) (act : Act) :
  after (acts ++ [act]) = (after acts).perform act
  := List.foldl_concat ..

end Ledger

/-- Whether an act can change what is found for a key: it makes a store for the key, or lets go of
the last handle on the newest. -/
def Act.Concerns (l : Ledger) (key : QueryKey) : Act → Prop
  | .create request => (SearchStore.create request).isOk ∧ request.key = key
  | .release number => newest? key l.made = some number ∧ l.handles.count number = 1
  | .find _ | .share _ => False

/-- The pool without the entries of stores that nobody holds. -/
def prune (p : StorePool) : StorePool :=
  { p with newest := p.newest.filter fun entry => p.isHeld entry.2 }

/-- A store that is made takes the place of the entry of its key, in what pruning leaves. -/
theorem create_eq_prune {request : SearchRequest} {s : SearchStore}
    (h : SearchStore.create request = .ok s) (p : StorePool) :
  p.create request
    = ({ p with
          asked := p.asked + 1
          stores := p.stores ++ [s]
          held := p.held ++ [p.stores.length]
          newest := p.prune.newest.filter (·.1 ≠ request.key)
            ++ [(request.key, p.stores.length)] }, .ok p.stores.length)
  := by
  simp only [create, h, prune, isHeld, List.filter_filter, Bool.and_comm]

/-! ### The newest store of a key -/

section

variable {key : QueryKey} {made : List QueryKey} {number : Nat}

/-- The newest store of a key is the last one made for it. -/
theorem newest?_concat (key : QueryKey) (made : List QueryKey) (last : QueryKey) :
  newest? key (made ++ [last]) = if last = key then some made.length else newest? key made
  := by
  rw [newest?, newest?, List.zipIdx_append, List.filter_append, List.getLast?_append]
  by_cases hkey : last = key
  · simp [hkey]
  · simp [hkey]

/-- The newest store of a key is the one with the greatest number. -/
theorem newest?_eq_some_iff :
  newest? key made = some number ↔ IsGreatest { n | made[n]? = some key } number
  := by
  induction made using List.reverseRecOn with
  | nil => simp [newest?, IsGreatest]
  | append_singleton made last ih =>
      have hmem : ∀ n, (made ++ [last])[n]? = some key
          ↔ made[n]? = some key ∨ n = made.length ∧ last = key := by
        intro n
        rw [List.getElem?_append, List.getElem?_singleton]
        grind
      simp only [newest?_concat, hmem]
      split
      case isTrue hkey =>
        have hgreatest : IsGreatest { n | made[n]? = some key ∨ n = made.length ∧ last = key }
            made.length := by
          use .inr ⟨rfl, hkey⟩
          rintro n (hn | ⟨rfl, -⟩)
          · apply (List.getElem?_eq_some_iff.mp hn).1.le
          · apply le_refl
        rw [Option.some_inj]
        constructor
        · rintro rfl
          apply hgreatest
        · apply hgreatest.unique
      case isFalse hkey => simpa [hkey] using ih

/-- The newest store of a key is among those made. -/
theorem newest?_lt (h : newest? key made = some number) :
  number < made.length
  := by
  obtain ⟨hmade, -⟩ := newest?_eq_some_iff.mp h
  apply (List.getElem?_eq_some_iff.mp hmade).1

end

/-! ### What the ledger says -/

namespace Ledger

variable {l l' : Ledger} {key : QueryKey} {number : Nat} {act : Act}

/-- A store is found for a key if it is the newest of the key and there is a handle on it. -/
theorem find?_eq_some_iff :
  l.find? key = some number ↔ newest? key l.made = some number ∧ number ∈ l.handles
  := by
  rw [find?, Option.filter_eq_some_iff, decide_eq_true_iff]

/-- What is found for a key is seen from its newest store and the handles on that. -/
theorem find?_congr (hnewest : newest? key l'.made = newest? key l.made)
    (hhandles : ∀ n, newest? key l.made = some n → (n ∈ l'.handles ↔ n ∈ l.handles)) :
  l'.find? key = l.find? key
  := by
  apply Option.ext
  intro n
  rw [find?_eq_some_iff, find?_eq_some_iff, hnewest]
  apply and_congr_right (hhandles n)

/-- A store that is made gets the next number and one handle. -/
theorem perform_create_of_ok {request : SearchRequest} {s : SearchStore}
    (h : SearchStore.create request = .ok s) (l : Ledger) :
  l.perform (.create request) = ⟨l.made ++ [request.key], l.handles ++ [l.made.length]⟩
  := by
  simp only [perform, h]

/-- A request that is refused leaves the ledger as it is. -/
theorem perform_create_of_error {request : SearchRequest} {fault : Error}
    (h : SearchStore.create request = .error fault) (l : Ledger) :
  l.perform (.create request) = l
  := by
  simp only [perform, h]

/-- Sharing a handle makes no store held that was not. -/
theorem mem_handles_share (l : Ledger) (number n : Nat) :
  n ∈ (l.perform (.share number)).handles ↔ n ∈ l.handles
  := by
  rw [perform]
  split
  case isTrue hmem =>
    rw [List.mem_append, List.mem_singleton, or_iff_left_of_imp]
    rintro rfl
    apply hmem
  case isFalse => apply Iff.rfl

/-- Finding a store gives no handle on a store that had none. -/
theorem mem_handles_find (l : Ledger) (key : QueryKey) (n : Nat) :
  n ∈ (l.perform (.find key)).handles ↔ n ∈ l.handles
  := by
  rw [perform, List.mem_append, or_iff_left_of_imp]
  intro hfound
  apply (find?_eq_some_iff.mp (Option.mem_toList.mp hfound)).2

/-- Releasing one of several handles on a store keeps which stores are held. -/
theorem mem_handles_release (hcount : l.handles.count number ≠ 1) (n : Nat) :
  n ∈ (l.perform (.release number)).handles ↔ n ∈ l.handles
  := by
  rw [perform]
  by_cases hn : n = number
  · subst hn
    rw [← List.count_pos_iff, ← List.count_pos_iff, List.count_erase_self]
    omega
  · apply List.mem_erase_of_ne hn

/-- An act that does not concern a key changes nothing of what is found for it. -/
theorem find?_perform (h : ¬ act.Concerns l key) :
  (l.perform act).find? key = l.find? key
  := by
  match act with
  | .create request =>
      cases hcreate : SearchStore.create request with
      | error fault => rw [perform_create_of_error hcreate]
      | ok s =>
          have hkey : request.key ≠ key := by
            intro hkey
            apply h
            simp [Act.Concerns, hcreate, hkey, Except.isOk, Except.toBool]
          rw [perform_create_of_ok hcreate]
          apply find?_congr
          · rw [newest?_concat, if_neg hkey]
          · intro n hn
            simp [(newest?_lt hn).ne]
  | .find key' =>
      apply find?_congr (by rfl)
      intro n _
      apply mem_handles_find
  | .share number =>
      apply find?_congr
      · rw [perform]
        split <;> rfl
      · intro n _
        apply mem_handles_share
  | .release number =>
      apply find?_congr (by rfl)
      intro n hn
      by_cases hcount : l.handles.count number = 1
      · apply List.mem_erase_of_ne
        rintro rfl
        exact h ⟨hn, hcount⟩
      · apply mem_handles_release hcount

end Ledger

/-! ### The pool against the ledger -/

/-- The entries of the pool are of stores that are the newest of their keys, and those that are
held have one. -/
structure Holding.Agrees (u : Holding) (l : Ledger) : Prop where
  handles : u.handles = l.handles
  made : u.pool.stores.map (·.key) = l.made
  held : ∀ n, n ∈ u.pool.held ↔ n ∈ l.handles
  newest : ∀ entry ∈ u.pool.newest, newest? entry.1 l.made = some entry.2
  remembered : ∀ key n, newest? key l.made = some n → n ∈ l.handles → (key, n) ∈ u.pool.newest

namespace Holding.Agrees

variable {u : Holding} {l : Ledger}

/-- An empty pool agrees with an empty ledger. -/
theorem empty :
  Holding.empty.Agrees Ledger.empty
  := by
  refine ⟨rfl, rfl, fun _ => Iff.rfl, ?_, ?_⟩
  · rintro entry ⟨⟩
  · rintro key n - ⟨⟩

/-- The pool has made as many stores as the ledger says. -/
theorem length_stores (agrees : u.Agrees l) :
  u.pool.stores.length = l.made.length
  := by
  rw [← agrees.made, List.length_map]

/-- The pool holds the stores that the ledger has handles on. -/
theorem isHeld_iff (agrees : u.Agrees l) (number : Nat) :
  u.pool.isHeld number = true ↔ number ∈ l.handles
  := by
  rw [isHeld, List.contains_iff_mem, agrees.held]

/-- What is looked up is an entry, so that it is the newest of its key, and what the ledger finds
has an entry. -/
theorem find?_eq (agrees : u.Agrees l) (key : QueryKey) :
  u.pool.find? key = l.find? key
  := by
  apply Option.ext
  intro number
  rw [Ledger.find?_eq_some_iff, find?]
  cases hlookup : u.pool.newest.lookup key with
  | none =>
      constructor
      · rintro ⟨⟩
      · rintro ⟨hnewest, hmem⟩
        have hentry := agrees.remembered key number hnewest hmem
        simpa using List.lookup_eq_none_iff.mp hlookup (key, number) hentry
  | some n =>
      have hnewest := agrees.newest (key, n) (mem_of_lookup hlookup)
      simp only [hnewest, Option.ite_none_right_eq_some, agrees.isHeld_iff, Option.some_inj]
      constructor
      · rintro ⟨hmem, rfl⟩
        exact ⟨rfl, hmem⟩
      · rintro ⟨rfl, hmem⟩
        exact ⟨hmem, rfl⟩

/-- Entries of stores that nobody holds are of no use. -/
theorem prune (agrees : u.Agrees l) :
  Holding.Agrees ⟨u.pool.prune, u.handles⟩ l
  := by
  refine ⟨agrees.handles, agrees.made, agrees.held, ?_, ?_⟩
  · intro entry hentry
    apply agrees.newest entry (List.mem_of_mem_filter hentry)
  · intro key n hnewest hmem
    apply List.mem_filter.mpr
    exact ⟨agrees.remembered key n hnewest hmem, (agrees.isHeld_iff n).mpr hmem⟩

/-- How many handles there are on a store does not matter as long as there is one. -/
theorem of_mem_iff (agrees : u.Agrees l) {l' : Ledger} (hmade : l'.made = l.made)
    (hmem : ∀ n, n ∈ l'.handles ↔ n ∈ l.handles) :
  Holding.Agrees ⟨u.pool, l'.handles⟩ l'
  := by
  refine ⟨rfl, agrees.made.trans hmade.symm, ?_, ?_, ?_⟩
  · intro n
    rw [hmem, agrees.held]
  · rw [hmade]
    apply agrees.newest
  · intro key n hnewest hn
    rw [hmade] at hnewest
    apply agrees.remembered key n hnewest ((hmem n).mp hn)

/-- The pool and the ledger agree on a store that is made. -/
theorem create_of_ok {request : SearchRequest} {s : SearchStore}
    (h : SearchStore.create request = .ok s) (agrees : u.Agrees l) :
  (u.perform (.create request)).Agrees (l.perform (.create request))
  := by
  have hlength := agrees.length_stores
  obtain ⟨tables, -, hs⟩ := SearchStore.eq_of_create h
  have hkey : s.key = request.key := by rw [hs]
  rw [Ledger.perform_create_of_ok h, perform, create_eq_prune h]
  refine ⟨?_, ?_, ?_, ?_, ?_⟩
  · simp only [agrees.handles, hlength]
  · simp only [List.map_append, agrees.made, List.map_singleton, hkey]
  · intro n
    simp only [List.mem_append, agrees.held, hlength]
  · simp only [List.forall_mem_append, List.forall_mem_singleton, newest?_concat, if_true, hlength,
      and_true]
    intro entry hentry
    obtain ⟨hpruned, hne⟩ := List.mem_filter.mp hentry
    rw [if_neg (Ne.symm (of_decide_eq_true hne))]
    apply agrees.prune.newest entry hpruned
  · intro key n hnewest hmem
    rw [newest?_concat] at hnewest
    rw [List.mem_append, List.mem_singleton]
    split at hnewest
    case isTrue hkey' =>
      right
      rw [hlength, ← Option.some_inj.mp hnewest, hkey']
    case isFalse hkey' =>
      left
      have hne := (newest?_lt hnewest).ne
      have hheld : n ∈ l.handles := by simpa [hne] using hmem
      apply List.mem_filter.mpr
      exact ⟨agrees.prune.remembered key n hnewest hheld, decide_eq_true (Ne.symm hkey')⟩

/-- The pool and the ledger agree on every act. -/
theorem perform (agrees : u.Agrees l) (act : Act) :
  (u.perform act).Agrees (l.perform act)
  := by
  match act with
  | .create request =>
      cases h : SearchStore.create request with
      | error fault =>
          rw [Ledger.perform_create_of_error h, Holding.perform, StorePool.create_of_error h]
          exact ⟨agrees.handles, agrees.made, agrees.held, agrees.newest, agrees.remembered⟩
      | ok s => apply create_of_ok h agrees
  | .find key =>
      rw [Holding.perform, agrees.handles, agrees.find?_eq]
      apply of_mem_iff agrees (by rfl) (l.mem_handles_find key)
  | .share number =>
      have hmem := l.mem_handles_share number
      rw [Ledger.perform] at hmem ⊢
      rw [Holding.perform, agrees.handles]
      split
      case isTrue hheld =>
        rw [if_pos hheld] at hmem
        apply of_mem_iff agrees (by rfl) hmem
      case isFalse => apply agrees
  | .release number =>
      rw [Holding.perform, agrees.handles]
      by_cases hleft : number ∈ l.handles.erase number
      · have hcount : l.handles.count number ≠ 1 := by
          rw [← List.count_pos_iff, List.count_erase_self] at hleft
          omega
        rw [if_pos hleft]
        apply of_mem_iff agrees (by rfl) (Ledger.mem_handles_release hcount)
      · rw [if_neg hleft]
        refine ⟨rfl, agrees.made, ?_, agrees.newest, ?_⟩
        · intro n
          rw [StorePool.release, List.mem_filter, decide_eq_true_iff, agrees.held, Ledger.perform]
          by_cases hn : n = number
          · subst hn
            simpa using hleft
          · rw [List.mem_erase_of_ne hn, and_iff_left hn]
        · intro key n hnewest hn
          apply agrees.remembered key n hnewest (List.mem_of_mem_erase hn)

end Holding.Agrees

/-- The pool and the ledger agree after any acts. -/
theorem agrees_after (acts : List Act) :
  (Holding.after acts).Agrees (Ledger.after acts)
  := by
  induction acts using List.reverseRecOn with
  | nil => apply Holding.Agrees.empty
  | append_singleton acts act ih =>
      rw [Holding.after_concat, Ledger.after_concat]
      apply ih.perform

/-- At any point of a history a pool finds for a key the store last made for it as long as there is
a handle on it, and nothing otherwise, whatever became of older stores of the key.  A store is known
by how many were made before.  Pruning and acts that do not concern a key change nothing of what is
found for it. -/
theorem finds_newest_while_held (acts : List Act) (key : QueryKey) :
  let u := Holding.after acts
  let l := Ledger.after acts
  u.handles = l.handles
    ∧ u.pool.stores.map (·.key) = l.made
    ∧ (∀ number, u.pool.find? key = some number
        ↔ IsGreatest { n | l.made[n]? = some key } number ∧ number ∈ l.handles)
    ∧ (∀ request, (u.pool.create request).2
        = (SearchStore.create request).map fun _ => l.made.length)
    ∧ u.pool.prune.find? key = u.pool.find? key
    ∧ ∀ act, ¬ act.Concerns l key →
        (Holding.after (acts ++ [act])).pool.find? key = u.pool.find? key
  := by
  intro u l
  have agrees : u.Agrees l := agrees_after acts
  refine ⟨agrees.handles, agrees.made, ?found, ?made, ?pruned, ?framed⟩
  case found =>
    intro number
    rw [agrees.find?_eq, Ledger.find?_eq_some_iff, newest?_eq_some_iff]
  case made =>
    intro request
    cases h : SearchStore.create request with
    | error fault => rw [create_of_error h, Except.map]
    | ok s => rw [create_eq_prune h, agrees.length_stores, Except.map]
  case pruned => rw [agrees.prune.find?_eq, agrees.find?_eq]
  case framed =>
    intro act hact
    rw [Holding.after_concat, (agrees.perform act).find?_eq, agrees.find?_eq]
    apply Ledger.find?_perform hact

/-- An older store of a key is not found again once the newest is let go of. -/
example :
  let request : SearchRequest := ⟨⟨"q"⟩, [], true, none⟩
  let u := Holding.after [.create request, .create request, .release 1]
  u.handles = [0] ∧ u.pool.find? ⟨"q"⟩ = none
  := by decide

end StorePool

end Collate
