import TriggerFlow.Proofs.Authoring.Calm
import TriggerFlow.Proofs.Builtin.Actions
import TriggerFlow.Proofs.Engine.Isolation
import TriggerFlow.Proofs.Inspection
/-!
# What a run sees of the definitions

Workflows, nodes and connections are the definitions of a store.  A run asks for them once, when it
loads its graph; whatever else it asks of the store has to do with its row (`Storage.Blind`).  So
runs on two stores that differ in their definitions only are the same if the graphs are
(`execute_akin`), unless an action looks at the definitions itself and makes a difference of what it
sees there.  `Engine.Indifferent` names a relation between definitions of which no action makes a
difference.

`Tables.SeenAlike` sums up what this means for those who read the graph of a workflow.
-/

namespace TriggerFlow

/-- The rows of a store that say what there is to run: all tables but `executions`. -/
structure Definitions where
  workflows : List Workflow
  nodes : List Node
  connections : List Connection

/-! ### Stores that differ in their definitions -/

def Tables.definitions (t : Tables) : Definitions := ⟨t.workflows, t.nodes, t.connections⟩

namespace Storage

variable {D : Definitions → Definitions → Prop} {s s' : Storage}

/-- The store with other definitions, and all the rest as it is. -/
def withDefinitions (s : Storage) (d : Definitions) : Storage :=
  { s with tables := ⟨d.workflows, d.nodes, d.connections, s.tables.executions⟩ }

/-- Two stores differ in nothing but their definitions, and these are related by `D`. -/
def Akin (D : Definitions → Definitions → Prop) (s s' : Storage) : Prop :=
  ∃ d, s' = s.withDefinitions d ∧ D s.tables.definitions d

theorem Akin.clock (akin : s.Akin D s') : s'.clock = s.clock := by
  obtain ⟨d, rfl, -⟩ := akin
  rfl

/-! ### Work that does not see the definitions -/

/-- The work answers the same on stores that are akin, and leaves such stores again, whatever `D`
is. -/
def Blind {ε α : Type} (work : EStateM ε Storage α) : Prop :=
  ∀ (D : Definitions → Definitions → Prop) (s s' : Storage), s.Akin D s' →
    Together (Akin D) (work s) (work s')

theorem blind_pure {ε α : Type} (a : α) : Blind (pure a : EStateM ε Storage α) :=
  fun _ _ _ akin => .ok akin

theorem Blind.bind {ε α β : Type} {work : EStateM ε Storage α} {next : α → EStateM ε Storage β}
    (h : Blind work) (hnext : ∀ a, Blind (next a)) : Blind (work >>= next) := by
  intro D s s' akin
  have hwork := h D s s' akin
  rw [bind_apply, bind_apply]
  generalize work s = result at hwork
  generalize work s' = result' at hwork
  cases hwork with
  | @ok a s₁ s₁' akin₁ => exact hnext a D s₁ s₁' akin₁
  | error akin₁ => exact .error akin₁

theorem blind_attempt (call : StoreCall) : Blind (attempt call) := by
  rintro D s _ ⟨d, rfl, hd⟩
  have houtages : (s.withDefinitions d).outages = s.outages := rfl
  rw [attempt, attempt, houtages]
  rcases Outage.meet call s.outages with ⟨_ | e, rest⟩
  · exact .ok ⟨d, rfl, hd⟩
  · exact .error ⟨d, rfl, hd⟩

theorem blind_drawId (kind : RowKind) : Blind (drawId kind) := by
  rintro D s _ ⟨d, rfl, hd⟩
  exact .ok ⟨d, rfl, hd⟩

theorem blind_insertExecution (row : Execution) : Blind (insertExecution row) := by
  refine (blind_attempt _).bind fun _ => (blind_drawId _).bind fun id => ?_
  rintro D s _ ⟨d, rfl, hd⟩
  exact .ok ⟨d, rfl, hd⟩

theorem blind_updateExecution (row : Execution) : Blind (updateExecution row) := by
  refine (blind_attempt _).bind fun _ => ?_
  rintro D s _ ⟨d, rfl, hd⟩
  rw [change, change]
  rcases Tables.updateExecution_cases s.tables.executions row.id with
    ⟨e, hrefused⟩ | ⟨stored, hwritten⟩
  · rw [hrefused s.tables row rfl rfl, hrefused (s.withDefinitions d).tables row rfl rfl]
    exact .error ⟨d, rfl, hd⟩
  · rw [hwritten s.tables row rfl rfl, hwritten (s.withDefinitions d).tables row rfl rfl]
    exact .ok ⟨d, rfl, hd⟩

end Storage

/-- Loading a graph is two attempts at the store, and then `Graph.ofTables` of its tables. -/
theorem Graph.load_apply (workflow : WorkflowId) (s : Storage) :
    load workflow s = (Storage.attempt .listNodes >>= fun _ =>
      Storage.attempt .listConnections >>= fun _ => pure (ofTables s.tables workflow)) s := by
  rw [load, Storage.listNodes, Storage.look, bind_apply, bind_apply, bind_apply]
  cases hnodes : Storage.attempt .listNodes s with
  | error e s₁ => rfl
  | ok u s₁ =>
    obtain ⟨outages, rfl⟩ := (Storage.looks_attempt _).of_ok hnodes
    dsimp only
    rw [bind_of_ok (get_apply _), pure_apply]
    dsimp only
    rw [Storage.listConnections, Storage.look, bind_apply, bind_apply, bind_apply]
    cases hconnections : Storage.attempt .listConnections { s with outages } with
    | error e s₂ => rfl
    | ok u s₂ =>
      obtain ⟨outages', rfl⟩ := (Storage.looks_attempt _).of_ok hconnections
      rfl

/-- From stores that are akin, equal graphs are loaded alike. -/
theorem Graph.load_akin {D : Definitions → Definitions → Prop} {s s' : Storage}
    {workflow : WorkflowId} (akin : s.Akin D s')
    (same : ofTables s'.tables workflow = ofTables s.tables workflow) :
    Together (Storage.Akin D) (load workflow s) (load workflow s') := by
  rw [load_apply, load_apply, same]
  refine (Storage.blind_attempt _).bind (fun _ => ?_) D s s' akin
  exact (Storage.blind_attempt _).bind fun _ => Storage.blind_pure _

/-! ### Runs -/

variable {D : Definitions → Definitions → Prop}

/-- Two worlds have everything in common but their definitions, and these are related by `D`. -/
structure World.Akin (D : Definitions → Definitions → Prop) (w w' : World) : Prop where
  journal : w'.journal = w.journal
  storage : w.storage.Akin D w'.storage

/-- Two runs have the same execution, in worlds that are akin. -/
structure Run.Akin (D : Definitions → Definitions → Prop) (r r' : Run) : Prop where
  execution : r'.execution = r.execution
  world : r.world.Akin D r'.world

theorem World.Akin.now {w w' : World} (akin : w.Akin D w') : w'.now = w.now := akin.storage.clock

theorem World.Akin.report {w w' : World} (akin : w.Akin D w') (id : ExecutionId) (h : Happening) :
    (w.report id h).Akin D (w'.report id h) := by
  refine ⟨?_, akin.storage⟩
  rw [World.report, World.report, akin.journal, akin.now]

theorem Run.Akin.after {r r' : Run} (akin : r.Akin D r') (h : Happening) :
    (r.after h).Akin D (r'.after h) := by
  refine ⟨akin.execution, ?_⟩
  rw [Run.after, Run.after, akin.execution]
  exact akin.world.report _ h

/-- The stores become others that are akin, and both runs get the same execution. -/
theorem Run.Akin.withStorage {r r' : Run} (akin : r.Akin D r') {e e' : Execution} {s s' : Storage}
    (same : e' = e) (storage : s.Akin D s') :
    Run.Akin D ⟨{ r.world with storage := s }, e⟩ ⟨{ r'.world with storage := s' }, e'⟩ :=
  ⟨same, akin.world.journal, storage⟩

namespace Engine

variable {engine : Engine} {r r' : Run}

/-- No action makes a difference of definitions that are related by `D`: on akin stores it answers
the same, and leaves stores that are akin. -/
def Indifferent (engine : Engine) (D : Definitions → Definitions → Prop) : Prop :=
  ∀ t a, engine.catalogue.action? t = some a → ∀ config context (s s' : Storage), s.Akin D s' →
    (a.run config context s').1 = (a.run config context s).1 ∧
    (a.run config context s).2.Akin D (a.run config context s').2

/-- The actions of `Builtin.catalogue` are indifferent to any relation `D`. -/
theorem indifferent_of_builtin (builtin : engine.catalogue = Builtin.catalogue)
    (D : Definitions → Definitions → Prop) : engine.Indifferent D := by
  rintro t a known config context s _ ⟨d, rfl, hd⟩
  rw [builtin] at known
  rcases Builtin.eq_of_action? known with rfl | rfl | rfl
  · exact ⟨rfl, d, rfl, hd⟩
  · exact ⟨rfl, d, rfl, hd⟩
  · change (Builtin.delayRun config context (s.withDefinitions d)).1 =
        (Builtin.delayRun config context s).1 ∧
      (Builtin.delayRun config context s).2.Akin D
        (Builtin.delayRun config context (s.withDefinitions d)).2
    unfold Builtin.delayRun
    cases (Fields.find? "delay_ms" config).bind Json.asWord64? with
    | none => exact ⟨rfl, d, rfl, hd⟩
    | some ms => exact ⟨rfl, d, rfl, hd⟩

theorem akin_of_call {n : Node} {t : String} {a : Action} (indifferent : engine.Indifferent D)
    (known : engine.catalogue.action? t = some a) (akin : r.Akin D r') :
    Together (Run.Akin D) (called n t a r) (called n t a r') ∧
      (deedsOfCall n t a r).map Deed.outline = (deedsOfCall n t a r').map Deed.outline := by
  -- the action answers both stores alike
  obtain ⟨hanswer, hstores⟩ := indifferent t a known n.config r.execution.context _ _
    akin.world.storage
  have hexecution := akin.execution
  have hnow := akin.world.now
  unfold called deedsOfCall
  rw [hexecution, hnow]
  generalize a.run n.config r.execution.context r.world.storage = answer at hanswer hstores ⊢
  generalize a.run n.config r.execution.context r'.world.storage = answer' at hanswer hstores ⊢
  obtain ⟨verdict, s⟩ := answer
  obtain ⟨verdict', s'⟩ := answer'
  obtain rfl : verdict' = verdict := hanswer
  dsimp only at hstores ⊢
  cases verdict' with
  | failed e => exact ⟨.error (akin.withStorage hexecution hstores), rfl⟩
  | crashed message => exact ⟨.error (akin.withStorage hexecution hstores), rfl⟩
  | done v =>
    have hrecorded : (r'.recording n.id v).execution = (r.recording n.id v).execution := by
      rw [Run.recording, Run.recording, hexecution]
    -- writing an execution does not look at definitions
    have hwrite := Storage.blind_updateExecution (r.execution.recordAction n.id v) D s s' hstores
    have hclock := hstores.clock
    dsimp only
    generalize Storage.updateExecution (r.execution.recordAction n.id v) s = result at hwrite ⊢
    generalize Storage.updateExecution (r.execution.recordAction n.id v) s' = result' at hwrite ⊢
    cases hwrite with
    | error hq => exact ⟨.error (akin.withStorage hrecorded hq), rfl⟩
    | ok hq =>
      have hkept := akin.withStorage hrecorded hq
      rw [hclock]
      exact ⟨.ok (hkept.after _), rfl⟩

/-- Runs of an indifferent engine are in `Lockstep` by `Run.Akin`. -/
theorem lockstep_of_indifferent (indifferent : engine.Indifferent D) :
    Lockstep engine engine (fun _ _ => True) (Run.Akin D) where
  twins := .refl engine
  context akin := congrArg Execution.context akin.execution
  report h akin := akin.after h
  call := by
    intro n t a a' r r' akin known known' _
    obtain rfl := Option.some.inj (known.symm.trans known')
    exact akin_of_call indifferent known akin
  first _ := trivial
  rest _ _ := trivial

theorem akin_conclude {ending ending' : Ending} (started : Timestamp)
    (h : Together (Run.Akin D) ending ending') :
    World.Akin D (conclude started ending) (conclude started ending') := by
  have hends : (leftBy ending).Akin D (leftBy ending') := h.leftBy
  have hlast : outcome started ending' = outcome started ending ∧
      closing ending' = closing ending := by
    cases h with
    | ok akin =>
      rw [outcome, outcome, closing, closing, akin.world.now, akin.execution]
      exact ⟨rfl, rfl⟩
    | error akin =>
      rw [outcome, outcome, closing, closing, akin.world.now, akin.execution]
      exact ⟨rfl, rfl⟩
  have hreported := hends.after (outcome started ending)
  refine ⟨?_, ?_⟩
  · rw [conclude_eq, conclude_eq, journal_record, journal_record, hlast.1]
    exact hreported.world.journal
  · rw [storage_conclude, storage_conclude, hlast.2]
    exact (Storage.blind_updateExecution _ D _ _ hends.world.storage).leftBy

/-- The `begin` of a run on akin worlds fails with the same error, or gives runs that are akin. -/
theorem begin_akin {w w' : World} (akin : w.Akin D w') (workflow : Workflow) (triggerType : String)
    (payload : Fields) :
    (∃ e w₁ w₁', Run.begin workflow triggerType payload w = .error e w₁ ∧
      Run.begin workflow triggerType payload w' = .error e w₁' ∧ w₁.Akin D w₁') ∨
    ∃ r r', Run.begin workflow triggerType payload w = .ok r r.world ∧
      Run.begin workflow triggerType payload w' = .ok r' r'.world ∧ r.Akin D r' := by
  have hrow : Execution.start Uuid.nil workflow.id triggerType payload w'.now =
      Execution.start Uuid.nil workflow.id triggerType payload w.now := by rw [akin.now]
  have hinsert := Storage.blind_insertExecution
    (Execution.start Uuid.nil workflow.id triggerType payload w.now) D _ _ akin.storage
  generalize hresult : Storage.insertExecution _ w.storage = result at hinsert
  generalize hresult' : Storage.insertExecution _ w'.storage = result' at hinsert
  rw [← hrow] at hresult'
  cases hinsert with
  | @error e s s' hstores =>
    exact .inl ⟨e, _, _, begin_of_refused hresult, begin_of_refused hresult', akin.journal,
      hstores⟩
  | @ok row s s' hstores =>
    have hbegun : World.Akin D { w with storage := s } { w' with storage := s' } :=
      ⟨akin.journal, hstores⟩
    exact .inr ⟨_, _, begin_of_inserted hresult, begin_of_inserted hresult', rfl,
      hbegun.report _ _⟩

/-- On akin worlds that hold the same graph of a workflow, the runs of an indifferent engine end
`Together`, in worlds that are akin. -/
theorem execute_akin (indifferent : engine.Indifferent D) {w w' : World} (akin : w.Akin D w')
    {workflow : Workflow}
    (same : Graph.ofTables w'.storage.tables workflow.id =
      Graph.ofTables w.storage.tables workflow.id) (triggerType : String) (payload : Fields) :
    Together (World.Akin D) (engine.execute workflow triggerType payload w)
      (engine.execute workflow triggerType payload w') := by
  rw [execute_apply, execute_apply, akin.now]
  rcases begin_akin akin workflow triggerType payload with
    ⟨e, w₁, w₁', hrefused, hrefused', hleft⟩ | ⟨r, r', hbegun, hbegun', hruns⟩
  · rw [hrefused, hrefused']
    exact .error hleft
  · -- the graph is still that of the tables when it is loaded
    have hgraph : Graph.ofTables r'.world.storage.tables workflow.id =
        Graph.ofTables r.world.storage.tables workflow.id := by
      rw [ofTables_begin hbegun', ofTables_begin hbegun, same]
    have hload : Together (fun s s' => Run.Akin D (r.withStorage s) (r'.withStorage s'))
        (Graph.load workflow.id r.world.storage) (Graph.load workflow.id r'.world.storage) := by
      have hloaded := Graph.load_akin hruns.world.storage hgraph
      generalize Graph.load workflow.id r.world.storage = result at hloaded
      generalize Graph.load workflow.id r'.world.storage = result' at hloaded
      cases hloaded with
      | ok hstores => exact .ok (hruns.withStorage hruns.execution hstores)
      | error hstores => exact .error (hruns.withStorage hruns.execution hstores)
    obtain ⟨hends, -⟩ := (lockstep_of_indifferent indifferent).traverse hruns
      (congrArg Execution.triggerData hruns.execution) hload trivial
    rw [hbegun, hbegun']
    dsimp only
    rw [hruns.execution]
    exact .ok (akin_conclude w.now hends)

end Engine

/-! ### Whoever reads a graph -/

/-- The relation between definitions that always holds. -/
def Definitions.Any (_ _ : Definitions) : Prop := True

/-- The store with the tables `t`. -/
def Storage.withTables (s : Storage) (t : Tables) : Storage := { s with tables := t }

@[simp] theorem Storage.tables_withTables (s : Storage) (t : Tables) :
    (s.withTables t).tables = t := rfl

def World.withTables (w : World) (t : Tables) : World :=
  { w with storage := w.storage.withTables t }

/-- Two inspections of a graph `g` end alike: with the same error, or with warnings that are
`Warning.Alike` one by one. -/
inductive InspectedAlike (g : Graph) (R : Storage → Storage → Prop) :
    EStateM.Result AuthoringError Storage (List Warning) →
    EStateM.Result AuthoringError Storage (List Warning) → Prop
  | ok {ws ws' s s'} (alike : List.Forall₂ (Warning.Alike g) ws ws') (related : R s s') :
    InspectedAlike g R (.ok ws s) (.ok ws' s')
  | error {e s s'} (related : R s s') : InspectedAlike g R (.error e s) (.error e s')

/-- The tables `t` have given way to `t'`, and nobody who works from the graph of a workflow can
tell, be the store in whatever state otherwise. -/
structure Tables.SeenAlike (workflow : Workflow) (t t' : Tables) : Prop where
  graph : Graph.ofTables t' workflow.id = Graph.ofTables t workflow.id
  load : ∀ s : Storage, Together (Storage.Akin Definitions.Any)
    (Graph.load workflow.id (s.withTables t)) (Graph.load workflow.id (s.withTables t'))
  /-- One and the same listing `components` gives the same warnings. -/
  inspection : ∀ catalogue components (s : Storage), Together (Storage.Akin Definitions.Any)
    (Authoring.validateGraph catalogue workflow components (s.withTables t))
    (Authoring.validateGraph catalogue workflow components (s.withTables t'))
  /-- Two listings that are `ListsComponents` give warnings that are `Warning.Alike`. -/
  warnings : ∀ catalogue components components', Graph.ListsComponents components →
    Graph.ListsComponents components' → ∀ s : Storage,
      InspectedAlike (Graph.ofTables t workflow.id) (Storage.Akin Definitions.Any)
        (Authoring.validateGraph catalogue workflow components (s.withTables t))
        (Authoring.validateGraph catalogue workflow components' (s.withTables t'))
  /-- A run reports the same events and leaves the same executions, if its actions are
  `Indifferent`. -/
  runs : ∀ (engine : Engine) D, engine.Indifferent D → D t.definitions t'.definitions →
    ∀ triggerType payload (w : World), Together (World.Akin D)
      (engine.execute workflow triggerType payload (w.withTables t))
      (engine.execute workflow triggerType payload (w.withTables t'))

/-- An inspection is `Graph.load`, and then `Graph.warnings` of what was loaded. -/
theorem Authoring.validateGraph_apply (catalogue : Catalogue) (workflow : Workflow)
    (components : Graph → List (List Graph.Place)) (s : Storage) :
    validateGraph catalogue workflow components s =
      match Graph.load workflow.id s with
      | .ok g s' => .ok (g.warnings catalogue (components g)) s'
      | .error e s' => .error (.store e) s' := by
  rw [validateGraph, bind_apply, access]
  cases Graph.load workflow.id s <;> rfl

section
variable {t t' : Tables} {workflow : Workflow}

theorem Storage.withTables_akin {D : Definitions → Definitions → Prop}
    (rows : t'.executions = t.executions) (related : D t.definitions t'.definitions) (s : Storage) :
    (s.withTables t).Akin D (s.withTables t') := by
  refine ⟨t'.definitions, ?_, related⟩
  rw [withTables, withDefinitions, withTables, ← rows]
  rfl

/-- Inspections in tables `t` and `t'` with the same graph both answer with its `Graph.warnings`,
each by its own listing of the components, or they fail with the same error. -/
theorem Authoring.validateGraph_withTables (rows : t'.executions = t.executions)
    (same : Graph.ofTables t' workflow.id = Graph.ofTables t workflow.id) (catalogue : Catalogue)
    (components components' : Graph → List (List Graph.Place)) (s : Storage) :
    ∃ s₁ s₂, Storage.Akin Definitions.Any s₁ s₂ ∧
      ((let g := Graph.ofTables t workflow.id
        validateGraph catalogue workflow components (s.withTables t) =
          .ok (g.warnings catalogue (components g)) s₁ ∧
        validateGraph catalogue workflow components' (s.withTables t') =
          .ok (g.warnings catalogue (components' g)) s₂) ∨
      ∃ e, validateGraph catalogue workflow components (s.withTables t) = .error e s₁ ∧
        validateGraph catalogue workflow components' (s.withTables t') = .error e s₂) := by
  have hloaded := Graph.load_akin (Storage.withTables_akin (D := Definitions.Any) rows trivial s) same
  simp only [validateGraph_apply]
  generalize hresult : Graph.load workflow.id (s.withTables t) = result at hloaded
  generalize Graph.load workflow.id (s.withTables t') = result' at hloaded
  cases hloaded with
  | ok hstores =>
    obtain rfl := Graph.load_eq_ok hresult
    exact ⟨_, _, hstores, .inl ⟨rfl, rfl⟩⟩
  | error hstores => exact ⟨_, _, hstores, .inr ⟨_, rfl, rfl⟩⟩

/-- Tables with the same executions and the same graph of a workflow are `SeenAlike`: those who work
from the graph see nothing else of them. -/
theorem Tables.seenAlike_of_graph (rows : t'.executions = t.executions)
    (same : Graph.ofTables t' workflow.id = Graph.ofTables t workflow.id) :
    t.SeenAlike workflow t' := by
  refine ⟨same, fun s => Graph.load_akin (Storage.withTables_akin rows trivial s) same, ?_, ?_, ?_⟩
  · intro catalogue components s
    obtain ⟨s₁, s₂, hstores, ⟨hleft, hright⟩ | ⟨e, hleft, hright⟩⟩ :=
      Authoring.validateGraph_withTables rows same catalogue components components s
    · rw [hleft, hright]
      exact .ok hstores
    · rw [hleft, hright]
      exact .error hstores
  · intro catalogue components components' lists lists' s
    obtain ⟨s₁, s₂, hstores, ⟨hleft, hright⟩ | ⟨e, hleft, hright⟩⟩ :=
      Authoring.validateGraph_withTables rows same catalogue components components' s
    · rw [hleft, hright]
      exact .ok (Graph.warnings_alike catalogue (lists _) (lists' _)
        (Graph.nodup_ids_ofRows _ _)) hstores
    · rw [hleft, hright]
      exact .error hstores
  · intro engine D indifferent related triggerType payload w
    have hworlds : (w.withTables t).Akin D (w.withTables t') :=
      ⟨rfl, Storage.withTables_akin rows related w.storage⟩
    exact Engine.execute_akin indifferent hworlds same triggerType payload

end

/-- For some two listings of the components, the inspection of a workflow succeeds in the tables `t`
and in `t'` but answers with different warnings. -/
def Tables.NamedApart (workflow : Workflow) (t t' : Tables) : Prop :=
  ∃ components components', Graph.ListsComponents components ∧ Graph.ListsComponents components' ∧
    ∀ catalogue (s : Storage), s.outages = [] → ∃ warnings warnings',
      Authoring.validateGraph catalogue workflow components (s.withTables t) =
        .ok warnings (s.withTables t) ∧
      Authoring.validateGraph catalogue workflow components' (s.withTables t') =
        .ok warnings' (s.withTables t') ∧
      warnings ≠ warnings'

/-- The same graph is enough for that if two of its nodes are linked in both directions: the first
listing takes up one of them first (`Graph.componentsFrom`), the second listing the other. -/
theorem Tables.namedApart_of_linked {t t' : Tables} {workflow : Workflow}
    (same : Graph.ofTables t' workflow.id = Graph.ofTables t workflow.id) {a b : NodeId}
    (hne : a ≠ b)
    (there : Graph.Linked (t.listNodes workflow.id true) (t.listConnections workflow.id) a b)
    (back : Graph.Linked (t.listNodes workflow.id true) (t.listConnections workflow.id) b a) :
    t.NamedApart workflow t' := by
  refine ⟨Graph.componentsFrom a, Graph.componentsFrom b, Graph.listsComponents_componentsFrom a,
    Graph.listsComponents_componentsFrom b, fun catalogue s calm => ?_⟩
  have hinspect (t : Tables) := Authoring.validateGraph_of_calm (s := s.withTables t) calm catalogue
    workflow
  refine ⟨_, _, hinspect t _, hinspect t' _, ?_⟩
  rw [Storage.tables_withTables, Storage.tables_withTables, same]
  exact Graph.warnings_componentsFrom_ne catalogue (Graph.nodup_ids_ofRows _ _) hne
    (Graph.transGen_linked_iff.mp (.tail (.single there) back)).2
    (Graph.transGen_linked_iff.mp (.tail (.single back) there)).2

end TriggerFlow
