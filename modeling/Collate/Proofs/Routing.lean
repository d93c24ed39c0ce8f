import Collate.Search.Store
import Collate.Proofs.Feed
import Mathlib.Data.List.Forall2
import Mathlib.Data.List.Induction
import Mathlib.Data.List.Nodup

/-!
# A store and the tables of its components

A store is made of tables that know nothing of each other.  It is created if its components have
different names and their fields make sense, and otherwise refused for the first component of which
this is not so.  While its search goes on, each table is what the payloads for its component alone
would have made of it, and each payload returns what it would have returned there.
-/

namespace Collate

namespace Component

/-- The empty table of a component. -/
def table (c : Component) : Except Error Table :=
  Table.create c.fields c.showDetail c.maxResults c.storeSize

/-- Why a component cannot join those before it: its fields make no sense, or else its name is
taken. -/
def offence? (before : List Component) (c : Component) : Option Error :=
  match Plan.compile c.fields c.showDetail with
  | .error fault => some fault
  | .ok _ =>
    if c.id ∈ before.map (·.id) then some (.invalidConfig (.declaredTwice c.id)) else none

/-- Components with different names of which the fields make sense. -/
structure Compatible (components : List Component) : Prop where
  distinct : (components.map (·.id)).Nodup
  compiled : ∀ c ∈ components, ∃ plan, Plan.compile c.fields c.showDetail = .ok plan

/-- The table of a component has the plan that its fields compile to. -/
theorem table_eq (c : Component) :
  c.table
    = match Plan.compile c.fields c.showDetail with
      | .error fault => .error fault
      | .ok plan => .ok (.ofPlan plan c.maxResults c.storeSize)
  := by
  rw [table, Table.create]
  cases Plan.compile c.fields c.showDetail <;> rfl

theorem compatible_nil :
  Compatible []
  := ⟨List.nodup_nil, by simp⟩

/-- A component can join those before it if its fields compile and its name is new. -/
theorem offence?_eq_none {before : List Component} {c : Component} :
  c.offence? before = none
    ↔ (∃ plan, Plan.compile c.fields c.showDetail = .ok plan) ∧ c.id ∉ before.map (·.id)
  := by
  rw [offence?]
  cases Plan.compile c.fields c.showDetail <;> simp

/-- A component joins compatible ones if there is nothing against it. -/
theorem compatible_concat {before : List Component} {c : Component} :
  Compatible (before ++ [c]) ↔ Compatible before ∧ c.offence? before = none
  := by
  rw [offence?_eq_none]
  constructor
  case mp =>
    intro ⟨distinct, compiled⟩
    rw [List.map_append, List.map_singleton, ← List.concat_eq_append, List.nodup_concat] at distinct
    refine ⟨⟨distinct.2, ?_⟩, compiled c (by simp), distinct.1⟩
    intro c' hc'
    apply compiled c' (List.mem_append_left _ hc')
  case mpr =>
    intro ⟨compatible, hplan, hnew⟩
    constructor
    · rw [List.map_append, List.map_singleton, ← List.concat_eq_append, List.nodup_concat]
      exact ⟨hnew, compatible.distinct⟩
    · intro c' hc'
      obtain hc' | hc' := List.mem_append.mp hc'
      · apply compatible.compiled c' hc'
      · rw [List.mem_singleton.mp hc']
        apply hplan

/-- Among components that are not compatible there is a first one that cannot join those before
it. -/
theorem exists_offence {components : List Component} (h : ¬ Compatible components) :
  ∃ before c after fault, components = before ++ c :: after ∧ Compatible before
    ∧ c.offence? before = some fault
  := by
  induction components using List.reverseRecOn with
  | nil => exact absurd compatible_nil h
  | append_singleton components c ih =>
      by_cases compatible : Compatible components
      · rw [compatible_concat, not_and] at h
        obtain ⟨fault, hfault⟩ := Option.ne_none_iff_exists'.mp (h compatible)
        exact ⟨components, c, [], fault, rfl, compatible, hfault⟩
      · obtain ⟨before, c', after, fault, rfl, hbefore, hfault⟩ := ih compatible
        refine ⟨before, c', after ++ [c], fault, ?_, hbefore, hfault⟩
        rw [List.append_assoc, List.cons_append]

end Component

open Component

namespace SearchStore

/-! ### Creating a store -/

/-- Tables are made one component at a time, and the first that cannot join stops it. -/
theorem createTables_cons (made : List (String × Table)) (c : Component) (rest : List Component) :
  createTables made (c :: rest)
    = match c.table with
      | .error fault => .error fault
      | .ok table =>
        if c.id ∈ made.map (·.1) then .error (.invalidConfig (.declaredTwice c.id))
        else createTables (made ++ [(c.id, table)]) rest
  := by
  have hany : (made.any (·.1 = c.id)) = true ↔ c.id ∈ made.map (·.1) := by
    simp only [List.any_eq_true, List.mem_map, decide_eq_true_eq]
  rw [createTables, Component.table]
  cases Table.create c.fields c.showDetail c.maxResults c.storeSize with
  | error fault => rfl
  | ok table =>
      by_cases h : c.id ∈ made.map (·.1)
      · simp only [bind, Except.bind, hany, if_pos h]
        rfl
      · simp only [bind, Except.bind, hany, if_neg h]

/-- The tables for components are those for the first of them, and then those for the others. -/
theorem createTables_append (made : List (String × Table)) (before after : List Component) :
  createTables made (before ++ after)
    = match createTables made before with
      | .error fault => .error fault
      | .ok made => createTables made after
  := by
  induction before generalizing made with
  | nil => rfl
  | cons c before ih =>
      rw [List.cons_append, createTables_cons, createTables_cons]
      cases c.table with
      | error fault => rfl
      | ok table =>
          simp only
          split
          · rfl
          · apply ih

/-- Tables that were made for components, each empty and under the name of its component. -/
def Made (components : List Component) (tables : List (String × Table)) : Prop :=
  List.Forall₂ (fun c entry => entry.1 = c.id ∧ c.table = .ok entry.2) components tables

/-- The tables are named as their components are, in the same order. -/
theorem Made.map_fst {components : List Component} {tables : List (String × Table)}
    (made : Made components tables) :
  tables.map (·.1) = components.map (·.id)
  := by
  induction made with
  | nil => rfl
  | cons h _ ih => rw [List.map_cons, List.map_cons, h.1, ih]

/-- The table of a component is found under its name. -/
theorem Made.lookup {components : List Component} {tables : List (String × Table)}
    (made : Made components tables) (distinct : (components.map (·.id)).Nodup) {c : Component}
    (hc : c ∈ components) :
  ∃ fresh, c.table = .ok fresh ∧ tables.lookup c.id = some fresh
  := by
  rw [← made.map_fst] at distinct
  simp only [lookup_eq_some_iff_mem distinct]
  clear distinct
  induction made with
  | nil => contradiction
  | @cons first entry components tables h _ ih =>
      obtain ⟨name, table⟩ := entry
      obtain ⟨rfl, htable⟩ := h
      obtain rfl | hc := List.mem_cons.mp hc
      · exact ⟨table, htable, List.mem_cons_self⟩
      · obtain ⟨fresh, hfresh, hmem⟩ := ih hc
        exact ⟨fresh, hfresh, List.mem_cons_of_mem _ hmem⟩

/-- A component that was not requested has no table. -/
theorem Made.lookup_eq_none {components : List Component} {tables : List (String × Table)}
    (made : Made components tables) {component : String}
    (unknown : component ∉ components.map (·.id)) :
  tables.lookup component = none
  := by
  rw [List.lookup_eq_none_iff]
  intro entry hentry
  apply bne_iff_ne.mpr
  rintro rfl
  apply unknown
  rw [← made.map_fst]
  apply List.mem_map_of_mem hentry

/-- A component is refused if and only if there is something against it. -/
theorem createTables_singleton {before : List Component} {tables : List (String × Table)}
    (made : Made before tables) (c : Component) :
  createTables tables [c]
    = match c.offence? before, c.table with
      | some fault, _ => .error fault
      | none, .error fault => .error fault
      | none, .ok table => .ok (tables ++ [(c.id, table)])
  := by
  rw [createTables_cons, made.map_fst, c.table_eq, offence?]
  cases Plan.compile c.fields c.showDetail with
  | error fault => rfl
  | ok plan =>
      simp only
      split <;> rfl

/-- Compatible components get their tables. -/
theorem createTables_of_compatible {components : List Component}
    (compatible : Compatible components) :
  ∃ tables, createTables [] components = .ok tables ∧ Made components tables
  := by
  induction components using List.reverseRecOn with
  | nil => exact ⟨[], rfl, .nil⟩
  | append_singleton components c ih =>
      obtain ⟨hcomponents, hoffence⟩ := compatible_concat.mp compatible
      obtain ⟨tables, hcreate, made⟩ := ih hcomponents
      obtain ⟨plan, hplan⟩ := (offence?_eq_none.mp hoffence).1
      have htable : c.table = .ok (.ofPlan plan c.maxResults c.storeSize) := by
        rw [c.table_eq, hplan]
      use tables ++ [(c.id, .ofPlan plan c.maxResults c.storeSize)]
      constructor
      · rw [createTables_append, hcreate]
        simp only [createTables_singleton made, hoffence, htable]
      · apply List.rel_append made
        exact .cons ⟨rfl, htable⟩ .nil

/-- The first component that cannot join those before it decides the error. -/
theorem createTables_of_offence {before after : List Component} {c : Component} {fault : Error}
    (compatible : Compatible before) (hoffence : c.offence? before = some fault) :
  createTables [] (before ++ c :: after) = .error fault
  := by
  obtain ⟨tables, hcreate, made⟩ := createTables_of_compatible compatible
  rw [← List.singleton_append, ← List.append_assoc, createTables_append, createTables_append,
    hcreate]
  simp only [createTables_singleton made, hoffence]

/-- A new store has the tables of its components, a lowered signal and nothing reported. -/
theorem create_eq (request : SearchRequest) :
  create request
    = (createTables [] request.components).map fun tables =>
        ⟨request.key, .lowered, tables, [], [], false⟩
  := rfl

/-- A store is created for compatible components, with the empty table of each. -/
theorem exists_create_iff (request : SearchRequest) :
  (∃ s, create request = .ok s) ↔ Compatible request.components
  := by
  rw [create_eq]
  constructor
  · intro ⟨s, h⟩
    by_contra incompatible
    obtain ⟨before, c, after, fault, hsplit, hbefore, hoffence⟩ := exists_offence incompatible
    rw [hsplit, createTables_of_offence hbefore hoffence] at h
    cases h
  · intro compatible
    obtain ⟨tables, hcreate, -⟩ := createTables_of_compatible compatible
    rw [hcreate]
    exact ⟨_, rfl⟩

/-- A store that was made is one of empty tables for its components. -/
theorem eq_of_create {request : SearchRequest} {s : SearchStore}
    (created : create request = .ok s) :
  ∃ tables, Made request.components tables ∧ s = ⟨request.key, .lowered, tables, [], [], false⟩
  := by
  have compatible := (exists_create_iff request).mp ⟨s, created⟩
  obtain ⟨tables, hcreate, made⟩ := createTables_of_compatible compatible
  rw [create_eq, hcreate] at created
  exact ⟨tables, made, (Except.ok.inj created).symm⟩

/-- A request is refused for its first component that cannot join those before it. -/
theorem create_error_iff (request : SearchRequest) (fault : Error) :
  create request = .error fault
    ↔ ∃ before c after, request.components = before ++ c :: after ∧ Compatible before
        ∧ c.offence? before = some fault
  := by
  rw [create_eq]
  constructor
  · intro h
    by_cases compatible : Compatible request.components
    · obtain ⟨tables, hcreate, -⟩ := createTables_of_compatible compatible
      rw [hcreate] at h
      cases h
    · obtain ⟨before, c, after, fault', hsplit, hbefore, hoffence⟩ := exists_offence compatible
      rw [hsplit, createTables_of_offence hbefore hoffence] at h
      cases h
      exact ⟨before, c, after, hsplit, hbefore, hoffence⟩
  · rintro ⟨before, c, after, hsplit, hbefore, hoffence⟩
    rw [hsplit, createTables_of_offence hbefore hoffence]
    rfl

/-! ### Adding to a store -/

/-- A table that is found is among those of the store. -/
theorem mem_of_table? {s : SearchStore} {c : String} {t : Table} (h : s.table? c = some t) :
  (c, t) ∈ s.tables
  := mem_of_lookup h

/-- Replacing the table of a component changes what is found for it alone. -/
theorem table?_setTable (s : SearchStore) (component : String) (table : Table) (c : String) :
  (s.setTable component table).table? c
    = (s.table? c).map fun t => if c = component then table else t
  := by
  obtain ⟨key, signal, tables, errors, highlights, complete⟩ := s
  simp only [setTable, table?]
  induction tables with
  | nil => rfl
  | cons entry tables ih =>
      rw [List.map_cons, List.lookup_cons, List.lookup_cons, ih]
      by_cases h : c = entry.1
      · subst h
        simp
      · simp [beq_false_of_ne h]

/-- A payload is added to the table of its component and to no other. -/
theorem table?_addPayload (s : SearchStore) (component : String) (payload : Payload) (c : String) :
  (s.addPayload component payload).1.table? c
    = (s.table? c).map fun t => if c = component then (t.add payload s.signal.raised).1 else t
  := by
  rw [addPayload]
  split
  next hnone =>
    by_cases h : c = component
    · subst h
      rw [hnone]
      rfl
    · simp [h]
  next table hsome =>
    change (s.setTable component _).table? c = _
    rw [table?_setTable]
    by_cases h : c = component
    · subst h
      simp [hsome]
    · simp [h]

/-- A payload for an unknown component is refused, and any other as the table decides. -/
theorem fault_addPayload (s : SearchStore) (component : String) (payload : Payload) :
  (s.addPayload component payload).2
    = match s.table? component with
      | none => some (.unknownComponent component)
      | some t => (t.add payload s.signal.raised).2
  := by
  rw [addPayload]
  cases s.table? component <;> rfl

/-- Adding a payload keeps the names of the tables and the signal. -/
theorem tables_addPayload (s : SearchStore) (component : String) (payload : Payload) :
  (s.addPayload component payload).1.tables.map (·.1) = s.tables.map (·.1)
    ∧ (s.addPayload component payload).1.signal = s.signal
  := by
  rw [addPayload]
  split
  next => exact ⟨rfl, rfl⟩
  next =>
    constructor
    · simp [setTable, Function.comp_def]
    · rfl

/-- A payload changes nothing of a store but its tables. -/
theorem same_addPayload (s : SearchStore) (component : String) (payload : Payload) :
  let added := (s.addPayload component payload).1
  added.errors = s.errors ∧ added.highlights = s.highlights ∧ added.complete = s.complete
  := by
  rw [addPayload]
  split <;> exact ⟨rfl, rfl, rfl⟩

/-! ### While a search goes on -/

/-- What may be done to a store while its search goes on. -/
inductive Action where
  | add (component : String) (payload : Payload)
  | report (error : String)
  | highlight (highlights : List String)
  | finish
  /-- Any look at the store, which leaves it as it is. -/
  | read

namespace Action

/-- The payload that an action adds to a component. -/
def payloadFor? (component : String) : Action → Option Payload
  | .add c payload => if c = component then some payload else none
  | _ => none

/-- The payloads added to a component, in order. -/
def payloadsFor (component : String) (actions : List Action) : List Payload :=
  actions.filterMap (payloadFor? component)

/-- The errors reported, in order. -/
def reported (actions : List Action) : List String :=
  actions.filterMap fun
    | .report error => some error
    | _ => none

end Action

/-- The store after an action. -/
def perform (s : SearchStore) : Action → SearchStore
  | .add component payload => (s.addPayload component payload).1
  | .report error => s.addError error
  | .highlight highlights => s.setHighlights highlights
  | .finish => s.finish
  | .read => s

/-- The store after actions that are performed one after the other. -/
def performAll (s : SearchStore) (actions : List Action) : SearchStore :=
  actions.foldl perform s

/-- What is done while a search goes on does not raise the signal. -/
theorem signal_performAll (s : SearchStore) (actions : List Action) :
  (s.performAll actions).signal = s.signal
  := by
  induction actions generalizing s with
  | nil => rfl
  | cons action actions ih =>
      apply (ih (s.perform action)).trans
      cases action with
      | add component payload => apply (tables_addPayload s component payload).2
      | _ => rfl

/-- The errors of a store are those reported to it, in order. -/
theorem errors_performAll (s : SearchStore) (actions : List Action) :
  (s.performAll actions).errors = s.errors ++ Action.reported actions
  := by
  induction actions generalizing s with
  | nil => apply (List.append_nil _).symm
  | cons action actions ih =>
      apply (ih (s.perform action)).trans
      cases action with
      | add component payload =>
          rw [perform, (same_addPayload s component payload).1]
          rfl
      | report error => apply List.append_assoc
      | _ => rfl

/-- An action changes the table of a component by the payload that it adds to it, if any. -/
theorem table?_perform {s : SearchStore} (lowered : s.signal.raised = false) (action : Action)
    (component : String) :
  (s.perform action).table? component
    = (s.table? component).map fun t => (t.feed (action.payloadFor? component).toList).1
  := by
  cases action with
  | add c payload =>
      rw [perform, table?_addPayload, lowered, Action.payloadFor?]
      by_cases h : c = component
      · simp only [if_pos h, if_pos h.symm]
        rfl
      · simp only [if_neg h, if_neg (Ne.symm h)]
        rfl
  | report | highlight | finish | read =>
      apply Option.map_id'.symm

/-- While the signal stays lowered, a table is what the payloads for its component alone would have
made of it. -/
theorem table?_performAll {s : SearchStore} (lowered : s.signal.raised = false)
    (actions : List Action) (component : String) :
  (s.performAll actions).table? component
    = (s.table? component).map fun t => (t.feed (Action.payloadsFor component actions)).1
  := by
  induction actions generalizing s with
  | nil => apply Option.map_id'.symm
  | cons action actions ih =>
      have hlowered : (s.perform action).signal.raised = false := by
        rw [← lowered, ← signal_performAll s [action]]
        rfl
      have hpayloads : Action.payloadsFor component (action :: actions)
          = (action.payloadFor? component).toList ++ Action.payloadsFor component actions := by
        rw [Action.payloadsFor, List.filterMap_cons]
        cases action.payloadFor? component <;> rfl
      apply (ih hlowered).trans
      rw [table?_perform lowered, Option.map_map, hpayloads]
      apply congrArg (Option.map · _)
      funext t
      rw [Table.feed_append]
      rfl

/-- A store is created if its components are compatible, and otherwise refused for the first of them
that cannot join those before it.  Whatever is then done with it, each component has the table that
its payloads alone would have made of the empty one, and the next payload returns what it would have
returned there.  A payload for no component changes nothing, and no payload changes another table,
the errors, the highlights or whether the search is over. -/
theorem product_of_tables (request : SearchRequest) :
  ((∃ s, create request = .ok s) ↔ Compatible request.components)
    ∧ (∀ fault, create request = .error fault
      ↔ ∃ before c after, request.components = before ++ c :: after ∧ Compatible before
          ∧ c.offence? before = some fault)
    ∧ ∀ s, create request = .ok s → ∀ actions,
      let s := s.performAll actions
      (∀ c ∈ request.components, ∃ fresh, c.table = .ok fresh
        ∧ let t := (fresh.feed (Action.payloadsFor c.id actions)).1
          s.table? c.id = some t
            ∧ s.snapshot? c.id = some t.snapshot
            ∧ ∀ payload, (s.addPayload c.id payload).2 = (t.add payload false).2)
      ∧ (∀ component ∉ request.components.map (·.id), ∀ payload,
        s.addPayload component payload = (s, some (.unknownComponent component)))
      ∧ s.errors = Action.reported actions
      ∧ ∀ component payload,
        let added := (s.addPayload component payload).1
        added.errors = s.errors ∧ added.highlights = s.highlights ∧ added.complete = s.complete
          ∧ ∀ other, other ≠ component →
            added.table? other = s.table? other ∧ added.snapshot? other = s.snapshot? other
  := by
  use exists_create_iff request, create_error_iff request
  intro s created actions after
  have compatible := (exists_create_iff request).mp ⟨s, created⟩
  obtain ⟨tables, made, rfl⟩ := eq_of_create created
  have hsignal : after.signal = .lowered := signal_performAll _ actions
  have hlowered : after.signal.raised = false := by rw [hsignal]; rfl
  have htable (c : String) : after.table? c
      = (tables.lookup c).map fun t => (t.feed (Action.payloadsFor c actions)).1 := by
    apply table?_performAll
    rfl
  refine ⟨?components, ?unknown, errors_performAll _ actions, ?others⟩
  case components =>
    intro c hc
    obtain ⟨fresh, hfresh, hlookup⟩ := made.lookup compatible.distinct hc
    have hheld : after.table? c.id = some (fresh.feed (Action.payloadsFor c.id actions)).1 := by
      rw [htable, hlookup]
      rfl
    refine ⟨fresh, hfresh, hheld, ?_, ?_⟩
    · rw [snapshot?, hlowered, hheld]
      rfl
    · intro payload
      rw [fault_addPayload, hheld, hlowered]
  case unknown =>
    intro component unknown payload
    have hnone : after.table? component = none := by
      rw [htable, made.lookup_eq_none unknown]
      rfl
    rw [addPayload, hnone]
  case others =>
    intro component payload added
    obtain ⟨herrors, hhighlights, hcomplete⟩ := same_addPayload after component payload
    use herrors, hhighlights, hcomplete
    intro other hother
    have hsame : added.table? other = after.table? other := by
      rw [table?_addPayload]
      simp only [if_neg hother]
      apply Option.map_id'
    use hsame
    rw [snapshot?, snapshot?, hsame, (tables_addPayload after component payload).2]

/-- A request for two tables of details. -/
def guests : SearchRequest :=
  .ofComponents ⟨"guests"⟩ [(Component.ofFields "left" [.named "name"]).withDetail true,
    (Component.ofFields "right" [.named "name", .named "age"]).withDetail true]

/-- A row is added to each table and again to the first, which alone has room for one slot. -/
theorem product_of_tables_guests :
  let payload : Payload := .ofRows [⟨.detail .root, [some (.count 1)]⟩]
  let actions : List Action :=
    [.add "left" payload, .report "late", .add "right" payload, .add "middle" payload,
      .read, .report "lost", .add "left" payload, .finish]
  ∃ s, create guests = .ok s
    ∧ ((s.performAll actions).snapshot? "left").map Snapshot.size = some 2
    ∧ ((s.performAll actions).snapshot? "right").map Snapshot.size = some 0
    ∧ ((s.performAll actions).addPayload "right" payload).2
      = some (.invalidData (.slotCount 1 2))
    ∧ (s.performAll actions).addPayload "middle" payload
      = (s.performAll actions, some (.unknownComponent "middle"))
    ∧ (s.performAll actions).errors = ["late", "lost"]
    ∧ create ⟨guests.key, guests.components ++ guests.components, true, none⟩
      = .error (.invalidConfig (.declaredTwice "left"))
  := by
  intro payload actions
  have compatible : Compatible guests.components := by
    constructor
    · decide
    · intro c hc
      cases hc with
      | head => exact ⟨_, rfl⟩
      | tail _ hc =>
          obtain rfl := List.mem_singleton.mp hc
          exact ⟨_, rfl⟩
  obtain ⟨accepts, -, run⟩ := product_of_tables guests
  obtain ⟨s, created⟩ := accepts.mpr compatible
  obtain ⟨held, unknown, herrors, -⟩ := run s created actions
  obtain ⟨fresh, hfresh, -, hleft, -⟩ := held _ List.mem_cons_self
  obtain ⟨fresh', hfresh', -, hright, hanswer⟩ :=
    held _ (List.mem_cons_of_mem _ List.mem_cons_self)
  obtain rfl := Except.ok.inj hfresh
  obtain rfl := Except.ok.inj hfresh'
  refine ⟨s, created, ?_, ?_, (hanswer payload).trans ?_, unknown "middle" (by decide) payload,
    herrors, ?_⟩
  · apply (congrArg (Option.map Snapshot.size) hleft).trans
    decide +kernel
  · apply (congrArg (Option.map Snapshot.size) hright).trans
    decide +kernel
  · decide +kernel
  · apply ((product_of_tables _).2.1 _).mpr
    exact ⟨guests.components, _, _, rfl, compatible, by decide⟩

end SearchStore

end Collate
