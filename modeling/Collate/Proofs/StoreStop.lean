import Collate.Proofs.EarlyStop
import Collate.Proofs.Routing

/-!
# Stopping the search of a store

The search of a store may stop when that of each of its tables may.  As long as their counters do
not overflow they do not change their answers, and where each of them shows all that it ever will,
so does the store, whatever is added to it.
-/

namespace Collate

namespace Table

/-- A payload that is added while no other producer arrives is all that comes to the table. -/
theorem exists_path_add (t : Table) (payload : Payload) (raised : Bool) :
  ∃ events, Path t events (t.add payload raised).1 ∧ .cleared ∉ events
    ∧ arrivals events = [payload]
  := ⟨_, path_trace.1 t (.add payload [] raised), cleared_notMem_trace.1 _ _ rfl,
    arrivals_tracePolls t (.arriving payload) raised⟩

/-- Whatever happens to a table between two moments, it is not cleared, and no payloads are brought
but some of these. -/
def Follows (t t' : Table) (payloads : List Payload) : Prop :=
  ∃ events, Path t events t' ∧ .cleared ∉ events ∧ (arrivals events).Sublist payloads

namespace Follows

variable {t t' t'' : Table} {payloads payloads' : List Payload}

theorem refl (t : Table) (payloads : List Payload) :
  t.Follows t payloads
  := ⟨[], .nil t, List.not_mem_nil, List.nil_sublist _⟩

theorem append (follows : t.Follows t' payloads) (follows' : t'.Follows t'' payloads') :
  t.Follows t'' (payloads ++ payloads')
  := by
  obtain ⟨events, path, uncleared, sublist⟩ := follows
  obtain ⟨events', path', uncleared', sublist'⟩ := follows'
  refine ⟨events ++ events', path.append path', ?_, ?_⟩
  · rw [List.mem_append, not_or]
    exact ⟨uncleared, uncleared'⟩
  · rw [arrivals, List.filterMap_append]
    apply sublist.append sublist'

theorem add (t : Table) (payload : Payload) (raised : Bool) :
  t.Follows (t.add payload raised).1 [payload]
  := by
  obtain ⟨events, path, uncleared, harrivals⟩ := t.exists_path_add payload raised
  exact ⟨events, path, uncleared, harrivals ▸ List.Sublist.refl _⟩

end Follows

end Table

namespace SearchStore

/-- Each component is shown as far as its table may be. -/
def Bounded (s : SearchStore) (components : List Component) : Prop :=
  ∀ c ∈ components, ∀ t, s.table? c.id = some t → c.maxResults = t.maxResults

/-- The store when payloads have been added to its components one after the other. -/
def addAll (s : SearchStore) (payloads : List (String × Payload)) : SearchStore :=
  payloads.foldl (fun s payload => (s.addPayload payload.1 payload.2).1) s

section

variable {s : SearchStore}

theorem exists_follows_addPayload {component : String} {payload : Payload} {entry : String × Table}
    (h : entry ∈ (s.addPayload component payload).1.tables) :
  ∃ entry' ∈ s.tables, entry'.2.Follows entry.2 [payload]
  := by
  rw [addPayload] at h
  split at h
  next => exact ⟨entry, h, .refl _ _⟩
  next table hsome =>
    obtain ⟨⟨c, t⟩, hmem, rfl⟩ := List.mem_map.mp h
    by_cases hc : c = component
    · simp only [hc, if_true]
      exact ⟨_, mem_of_table? hsome, .add table payload s.signal.raised⟩
    · simp only [hc, if_false]
      exact ⟨_, hmem, .refl _ _⟩

/-- Each table of the store comes from one that was there when payloads were added. -/
theorem exists_follows_addAll {payloads : List (String × Payload)} {entry : String × Table}
    (h : entry ∈ (s.addAll payloads).tables) :
  ∃ entry' ∈ s.tables, entry'.2.Follows entry.2 (payloads.map (·.2))
  := by
  induction payloads generalizing s with
  | nil => exact ⟨entry, h, .refl _ _⟩
  | cons payload payloads ih =>
      obtain ⟨entry', hentry', follows⟩ := ih h
      obtain ⟨entry'', hentry'', follows'⟩ := exists_follows_addPayload hentry'
      exact ⟨entry'', hentry'', follows'.append follows⟩

/-- The table of a component goes on when payloads are added. -/
theorem table?_addAll (s : SearchStore) (payloads : List (String × Payload)) (component : String) :
  (s.table? component = none ∧ (s.addAll payloads).table? component = none)
    ∨ ∃ t t', s.table? component = some t ∧ (s.addAll payloads).table? component = some t'
      ∧ t.Follows t' (payloads.map (·.2))
  := by
  induction payloads generalizing s with
  | nil =>
      cases h : s.table? component with
      | none => exact .inl ⟨rfl, h⟩
      | some t => exact .inr ⟨t, t, rfl, h, .refl _ _⟩
  | cons payload payloads ih =>
      have hadd := table?_addPayload s payload.1 payload.2 component
      obtain ⟨hnone, hnone'⟩ | ⟨t', t'', hsome, hsome', follows⟩ :=
        ih (s.addPayload payload.1 payload.2).1
      · left
        rw [hnone, eq_comm, Option.map_eq_none_iff] at hadd
        exact ⟨hadd, hnone'⟩
      · right
        rw [hsome, eq_comm, Option.map_eq_some_iff] at hadd
        obtain ⟨t, ht, rfl⟩ := hadd
        refine ⟨t, t'', ht, hsome', ?_⟩
        split at follows
        · apply (Table.Follows.add t payload.2 s.signal.raised).append follows
        · apply (Table.Follows.refl t [payload.2]).append follows

theorem signal_addAll (s : SearchStore) (payloads : List (String × Payload)) :
  (s.addAll payloads).signal = s.signal
    ∧ (s.addAll payloads).tables.map (·.1) = s.tables.map (·.1)
  := by
  induction payloads generalizing s with
  | nil => exact ⟨rfl, rfl⟩
  | cons payload payloads ih =>
      obtain ⟨hnames, hsignal⟩ := tables_addPayload s payload.1 payload.2
      obtain ⟨hsignal', hnames'⟩ := ih (s.addPayload payload.1 payload.2).1
      exact ⟨hsignal'.trans hsignal, hnames'.trans hnames⟩

theorem canStop_eq_true_iff :
  s.canStop = true ↔ s.tables.map (·.1) ≠ [] ∧ ∀ entry ∈ s.tables, entry.2.canStop = true
  := by
  simp [SearchStore.canStop]

/-- A store of which no table moves shows the same whatever is added to it. -/
theorem collect_addAll {components : List Component} (bounded : s.Bounded components)
    (unmoved : ∀ entry ∈ s.tables, ∃ limits, entry.2.maxResults = some limits
      ∧ entry.2.Unmoved limits)
    (payloads : List (String × Payload)) :
  (s.addAll payloads).collect components = s.collect components
  := by
  have hshown : ∀ c ∈ components,
      ((s.addAll payloads).snapshot? c.id).map (TableResult.ofSnapshot c)
        = (s.snapshot? c.id).map (TableResult.ofSnapshot c) := by
    intro c hc
    rw [snapshot?, snapshot?, (s.signal_addAll payloads).1]
    split
    · rfl
    obtain ⟨hnone, hnone'⟩ | ⟨t, t', hsome, hsome', events, path, uncleared, -⟩ :=
      s.table?_addAll payloads c.id
    · rw [hnone, hnone']
    · obtain ⟨limits, hlimits, hunmoved⟩ := unmoved _ (mem_of_table? hsome)
      have hbounded : c.maxResults = some limits := (bounded c hc t hsome).trans hlimits
      rw [hsome, hsome']
      apply congrArg some
      apply hunmoved.ofSnapshot_eq path uncleared hbounded
  have hmissing : ∀ c ∈ components,
      ((s.addAll payloads).snapshot? c.id).isNone = (s.snapshot? c.id).isNone := by
    intro c hc
    have := congrArg Option.isNone (hshown c hc)
    simpa using this
  rw [collect, collect, Prod.mk.injEq]
  constructor
  · apply List.filterMap_congr hshown
  · apply List.filterMap_congr
    intro c hc
    rw [hmissing c hc]

/-- A store whose search may stop says so as long as the counters of its tables do not overflow. -/
theorem canStop_addAll (stops : s.canStop = true)
    (coherent : ∀ entry ∈ s.tables, entry.2.Coherent) {payloads : List (String × Payload)}
    (counts : ∀ entry ∈ s.tables, entry.2.CanCount (payloads.map (·.2))) :
  (s.addAll payloads).canStop = true
  := by
  obtain ⟨nonempty, hstops⟩ := canStop_eq_true_iff.mp stops
  rw [canStop_eq_true_iff, (s.signal_addAll payloads).2]
  use nonempty
  intro entry hentry
  obtain ⟨entry', hentry', events, path, uncleared, sublist⟩ := exists_follows_addAll hentry
  apply (coherent entry' hentry').canStop_of_path (hstops entry' hentry') path uncleared
  apply (counts entry' hentry').of_sublist sublist

end

end SearchStore

namespace Table

variable {plan : Plan} {storeSize : Sizes} {events : List Event} {t : Table} {limits : Sizes}

/-- A table that says that its search can stop goes on to say so, as long as nobody clears it and
its counter does not overflow, and it is right exactly if it takes no payload any more or shows
enough: then nothing that comes later changes what it shows.  It does show enough if all rows that
came stand at the top, under their own keys.  A store whose search may stop loses nothing by it if
each of its tables is right. -/
theorem canStop_sound_iff (path : Path (ofPlan plan (some limits) storeSize) events t)
    (uncleared : .cleared ∉ events) (stops : t.canStop = true) {component : Component}
    (bounded : component.maxResults = some limits) (whole : component.range = none) :
  (∀ later t', Path t later t' → .cleared ∉ later → t.CanCount (arrivals later) →
      t'.canStop = true)
    ∧ ((∀ later t', Path t later t' → .cleared ∉ later →
        TableResult.ofSnapshot component t'.snapshot = TableResult.ofSnapshot component t.snapshot)
      ↔ t.Refuses ∨ t.ShowsEnough limits)
    ∧ ((∀ payload ∈ arrivals events, payload.OwnKeyed) →
      (∀ payload ∈ arrivals events, ∀ entry ∈ payload, entry.2.key.parent = .root) →
      t.ShowsEnough limits)
    ∧ ∀ (s : SearchStore) (components : List Component), s.canStop = true → s.Bounded components →
      (∀ entry ∈ s.tables, ∃ plan limits storeSize events,
        Path (ofPlan plan (some limits) storeSize) events entry.2 ∧ .cleared ∉ events
          ∧ (entry.2.Refuses ∨ entry.2.ShowsEnough limits)) →
      ∀ payloads, (s.addAll payloads).collect components = s.collect components
        ∧ ((∀ entry ∈ s.tables, entry.2.CanCount (payloads.map (·.2))) →
          (s.addAll payloads).canStop = true)
  := by
  refine ⟨?answer, ⟨?stays, ?right⟩, path.showsEnough_of_top uncleared stops, ?store⟩
  case answer =>
    intro later t' hpath hlater counts
    apply path.coherent.canStop_of_path stops hpath hlater counts
  case stays =>
    intro stays
    apply path.done_of_stays uncleared stops bounded whole stays
  case right =>
    intro done later t' hpath hlater
    apply (path.unmoved uncleared stops done).ofSnapshot_eq hpath hlater bounded
  case store =>
    intro s components hstops hbounded reached payloads
    have hentries := (SearchStore.canStop_eq_true_iff.mp hstops).2
    constructor
    · apply SearchStore.collect_addAll hbounded
      intro entry hentry
      obtain ⟨_, limits, _, _, hpath, hcleared, done⟩ := reached entry hentry
      exact ⟨limits, hpath.maxResults_eq hcleared,
        hpath.unmoved hcleared (hentries entry hentry) done⟩
    · intro counts
      apply SearchStore.canStop_addAll hstops _ counts
      intro entry hentry
      obtain ⟨_, _, _, _, hpath, -⟩ := reached entry hentry
      apply hpath.coherent

/-- Rows for the top and one for a group that a table without groups does not have. -/
def topAndOrphan : List Row :=
  [⟨.detail ⟨[.null]⟩, [some (.count 1)]⟩, ⟨.detail .root, [some (.count 2)]⟩,
    ⟨.group .root, [none]⟩, ⟨.detail .root, [some (.count 3)]⟩]

/-- The component that shows a table with one field, two rows at the most. -/
def twoRows : Component :=
  ((Component.ofFields "hits" [Field.named "value"]).withDetail true).withMaxResults ⟨[2]⟩

/-- A table with such rows has all that it can show, and so has a store with this table alone. -/
theorem canStop_sound_iff_topAndOrphan :
  let fresh := ofPlan ⟨1, none, some 0, []⟩ (some ⟨[2]⟩) ⟨[3]⟩
  let t := (fresh.runAll [.add (.ofRows topAndOrphan) [] false]).1
  let s : SearchStore := ⟨⟨"q"⟩, .lowered, [("hits", t)], [], [], false⟩
  t.canStop = true
    ∧ t.snapshot.total = 4
    ∧ (∀ later t', Path t later t' → .cleared ∉ later →
      TableResult.ofSnapshot twoRows t'.snapshot = TableResult.ofSnapshot twoRows t.snapshot
        ∧ (t.CanCount (arrivals later) → t'.canStop = true))
    ∧ (∀ payloads, (s.addAll payloads).collect [twoRows] = s.collect [twoRows])
    ∧ (s.addAll [("hits", .ofRows topAndOrphan)]).canStop = true
  := by
  intro fresh t s
  let calls : List Call := [.add (.ofRows topAndOrphan) [] false]
  have path : Path fresh (events (fresh.traceAll calls)) t := path_trace.2.1 fresh calls
  have uncleared : .cleared ∉ events (fresh.traceAll calls) := cleared_notMem_trace.2.1 _ _ rfl
  have stops : t.canStop = true := by decide +kernel
  have shows : t.ShowsEnough ⟨[2]⟩ := by constructor <;> decide +kernel
  have bounded : twoRows.maxResults = some ⟨[2]⟩ := rfl
  obtain ⟨answer, ⟨-, right⟩, -, store⟩ := canStop_sound_iff path uncleared stops bounded rfl
  have hbounded : s.Bounded [twoRows] := by
    intro c hc t' ht'
    obtain rfl := List.mem_singleton.mp hc
    obtain rfl : t = t' := Option.some_inj.mp ht'
    exact (path.maxResults_eq uncleared).symm
  have hreached : ∀ entry ∈ s.tables, ∃ plan limits storeSize events,
      Path (ofPlan plan (some limits) storeSize) events entry.2 ∧ .cleared ∉ events
        ∧ (entry.2.Refuses ∨ entry.2.ShowsEnough limits) := by
    intro entry hentry
    obtain rfl := List.mem_singleton.mp hentry
    exact ⟨_, _, _, _, path, uncleared, .inr shows⟩
  have hstore := store s [twoRows] (by decide +kernel) hbounded hreached
  refine ⟨stops, by decide +kernel, ?_, fun payloads => (hstore payloads).1, ?_⟩
  · intro later t' hpath hlater
    exact ⟨right (.inr shows) later t' hpath hlater, answer later t' hpath hlater⟩
  · apply (hstore _).2
    decide +kernel

/-- A row that is not shown counts as if it were: the search is told to stop while the table shows
nothing, and a row that comes later is shown. -/
theorem canStop_unsound_orphan :
  let fresh := ofPlan ⟨1, none, some 0, []⟩ (some ⟨[1]⟩) .unbounded
  let orphan : Row := ⟨.detail ⟨[.text "a"]⟩, [some (.value (.long 1))]⟩
  let row : Row := ⟨.detail .root, [some (.value (.long 2))]⟩
  let t := (fresh.add (.ofRows [orphan]) false).1
  let t' := (t.add (.ofRows [row]) false).1
  t.canStop = true
    ∧ t.snapshot.walk ⟨[1]⟩ .root = []
    ∧ t'.snapshot.walk ⟨[1]⟩ .root = [row]
  := by
  intro fresh orphan row t t'
  have hnone : t.snapshot.rootRows.take 1 = [] := by decide +kernel
  have hone : t'.snapshot.rootRows.take 1 = [row] := by decide +kernel
  have hungrouped : ∀ shown ∈ [row], ∀ key, shown.key = .group key → key = .root := by
    simp [row]
  exact ⟨by decide +kernel, Snapshot.walk_root hnone (by simp), Snapshot.walk_root hone hungrouped⟩

end Table

end Collate
