import Mathlib.Data.List.Forall2
import TriggerFlow.Dispatch
import TriggerFlow.Proofs.Engine.Contexts
import TriggerFlow.Proofs.Engine.Lockstep
import TriggerFlow.Proofs.Engine.Settlement
/-!
# Firing a trigger

If the answers of actions depend on nothing but their settings and the context (`Engine.Functional`)
and the store works, then `Engine.fire` runs the workflows that wait for the trigger
(`Tables.waiting`), each once and in the order of their rows, and each as if it were the only one
(`fire_dispatches`).

A run adds its row behind those of others and touches nothing else (`Run.Confined`).  Two runs of a
workflow that are confined in this way stay in lockstep, whatever rows of executions there are
beside theirs, so that none of them can tell what has been run before.
-/

namespace TriggerFlow

/-! ### Stores that have grown by some rows -/

namespace Storage

variable {s : Storage} {row e : Execution}

/-- The store with `rows` at the end of its executions, at the time `clock`. -/
def adding (s : Storage) (rows : List Execution) (clock : Timestamp) : Storage :=
  { s with
    clock
    tables := { s.tables with executions := s.tables.executions ++ rows } }

/-- A running row that has been added last is what `updateExecution` writes over. -/
theorem updateExecution_adding (calm : s.outages = []) (running : e.status = .running)
    (hid : e.id = row.id) (new : ∀ x ∈ s.tables.executions, x.id ≠ row.id) (clock : Timestamp) :
    updateExecution row (s.adding [e] clock) = .ok () (s.adding [Tables.written e row] clock) := by
  have hnone : s.tables.executions.find? (fun x => x.id == row.id) = none := by
    rw [List.find?_eq_none]
    intro x hx
    simpa using new x hx
  have hfound : (s.adding [e] clock).tables.getExecution row.id = some e := by
    rw [Tables.getExecution]
    unfold adding
    rw [List.find?_append, hnone, Option.none_or, List.find?_cons_of_pos (by simp [hid])]
  have hothers : ∀ x ∈ s.tables.executions, (x.id == row.id) = false := fun x hx => by
    simpa using new x hx
  have hcalm : (s.adding [e] clock).outages = [] := calm
  rw [updateExecution, bind_of_ok (attempt_of_calm hcalm _), change,
    Tables.updateExecution_of_running hfound running]
  unfold adding
  dsimp only
  rw [Engine.replaceFirst_concat hothers (by simp [hid])]

end Storage

/-! ### Runs that touch nothing but their row -/

namespace Engine

/-- The verdict of each action is a function `f config context`, and the action changes nothing in
the store but its clock. -/
def Functional (engine : Engine) : Prop :=
  ∀ t a, engine.catalogue.action? t = some a → ∃ f : Config → Context → Verdict,
    ∀ config context (s : Storage), ∃ clock,
      a.run config context s = (f config context, { s with clock })

end Engine

/-- Of the store `s` a run has changed nothing but the clock: it has added its row, which is the
execution of the run. -/
structure Run.Confined (s : Storage) (r : Run) : Prop where
  calm : s.outages = []
  new : ∀ e ∈ s.tables.executions, e.id ≠ r.execution.id
  running : r.execution.status = .running
  storage : ∃ clock, r.world.storage = s.adding [r.execution] clock

namespace Run

variable {s : Storage} {r : Run}

theorem Confined.after (h : r.Confined s) (happening : Happening) :
    (r.after happening).Confined s :=
  ⟨h.calm, h.new, h.running, h.storage⟩

/-- A run stays `Confined` while time passes. -/
theorem Confined.wait (h : r.Confined s) (clock : Timestamp) :
    (r.withStorage { r.world.storage with clock }).Confined s := by
  obtain ⟨before, hstorage⟩ := h.storage
  refine ⟨h.calm, h.new, h.running, clock, ?_⟩
  rw [hstorage]
  rfl

/-- A run stays `Confined` when a result is recorded and written, after some time. -/
theorem Confined.record (h : r.Confined s) (node : NodeId) (v : Json) (clock : Timestamp) :
    ∃ s', Storage.updateExecution (r.execution.recordAction node v)
        { r.world.storage with clock } = .ok () s' ∧
      s'.clock = clock ∧ ((r.recording node v).withStorage s').Confined s := by
  obtain ⟨before, hstorage⟩ := h.storage
  have hid : r.execution.id = (r.execution.recordAction node v).id := rfl
  refine ⟨s.adding [r.execution.recordAction node v] clock, ?_, rfl, h.calm, h.new, h.running,
    clock, rfl⟩
  rw [hstorage]
  exact Storage.updateExecution_adding h.calm h.running hid h.new clock

/-- The `closing` row of a confined run is written over its own, and no other. -/
theorem Confined.close {ending : Engine.Ending} (h : (leftBy ending).Confined s) :
    ∃ clock, leftBy (Storage.updateExecution (Engine.closing ending)
      (leftBy ending).world.storage) = s.adding [Engine.closing ending] clock := by
  obtain ⟨clock, hstorage⟩ := h.storage
  have hid : (leftBy ending).execution.id = (Engine.closing ending).id :=
    (Engine.closing_id ending).symm
  have hnew : ∀ e ∈ s.tables.executions, e.id ≠ (Engine.closing ending).id := by
    rw [← hid]
    exact h.new
  have hwritten : Tables.written (leftBy ending).execution (Engine.closing ending) =
      Engine.closing ending := by
    cases ending <;> rfl
  refine ⟨clock, ?_⟩
  rw [hstorage, Storage.updateExecution_adding h.calm h.running hid hnew, hwritten, leftBy_ok]

/-- A run begins in a store without outages, under an identifier that is new, and is `Confined`. -/
theorem begin_confined {w : World} (calm : w.storage.outages = [])
    (new : ∀ e ∈ w.storage.tables.executions, e.id ≠ (w.storage.ids.next .execution).1)
    (workflow : Workflow) (triggerType : String) (payload : Fields) :
    ∃ r, Run.begin workflow triggerType payload w = .ok r r.world ∧
      r.execution = Execution.start (w.storage.ids.next .execution).1 workflow.id triggerType
        payload w.now ∧
      r.Confined { w.storage with ids := (w.storage.ids.next .execution).2 } := by
  have hinsert := Storage.insertExecution_of_calm calm
    (Execution.start Uuid.nil workflow.id triggerType payload w.now)
  exact ⟨_, Engine.begin_of_inserted hinsert, rfl, calm, new, rfl, w.now, rfl⟩

end Run

/-- Two runs have executions of the same `outline`, and both are `Confined`. -/
structure Run.Parallel (s s' : Storage) (r r' : Run) : Prop where
  outline : r'.execution.outline = r.execution.outline
  confined : r.Confined s
  confined' : r'.Confined s'

/-! ### The starts of runs -/

/-- The workflow and the trigger of `executionStarted`. -/
def Happening.started? : Happening → Option (WorkflowId × String)
  | executionStarted workflow triggerType => some (workflow, triggerType)
  | _ => none

/-- The execution, the workflow and the trigger of `executionStarted`. -/
def Event.started? (e : Event) : Option (ExecutionId × WorkflowId × String) :=
  e.happening.started?.map fun start => (e.execution, start)

theorem Happening.started?_of_isInner {h : Happening} (hinner : h.isInner = true) :
    h.started? = none := by
  cases h with
  | executionStarted => simp [isInner] at hinner
  | _ => rfl

/-- The starts among the events of one run are those among their happenings, in its name. -/
theorem filterMap_started? {id : ExecutionId} {news : List Event}
    (hnames : ∀ x ∈ news, x.execution = id) :
    news.filterMap Event.started? =
      ((news.map Event.happening).filterMap Happening.started?).map fun start => (id, start) := by
  have hevent {x : Event} (hx : x ∈ news) :
      x.started? = x.happening.started?.map fun start => (id, start) := by
    rw [Event.started?, hnames x hx]
  rw [List.filterMap_congr fun x hx => hevent hx, List.filterMap_map, List.map_filterMap]
  rfl

namespace Engine

variable {engine : Engine} {s s' : Storage} {r r' : Run}

theorem parallel_of_call {n : Node} {t : String} {a : Action} (functional : engine.Functional)
    (known : engine.catalogue.action? t = some a) (parallel : Run.Parallel s s' r r') :
    Together (Run.Parallel s s') (called n t a r) (called n t a r') ∧
      (deedsOfCall n t a r).map Deed.outline = (deedsOfCall n t a r').map Deed.outline := by
  obtain ⟨f, hf⟩ := functional t a known
  -- a functional action answers by settings and context, which both runs share
  obtain ⟨clock, hran⟩ := hf n.config r.execution.context r.world.storage
  obtain ⟨clock', hran'⟩ := hf n.config r'.execution.context r'.world.storage
  have hcontext : r'.execution.context = r.execution.context :=
    (congrArg Execution.context parallel.outline :)
  rw [hcontext] at hran'
  unfold called deedsOfCall
  rw [hcontext, hran, hran']
  have hended : Run.Parallel s s' (r.withStorage { r.world.storage with clock })
      (r'.withStorage { r'.world.storage with clock := clock' }) :=
    ⟨parallel.outline, parallel.confined.wait clock, parallel.confined'.wait clock'⟩
  cases f n.config r.execution.context with
  | failed e => exact ⟨.error hended, rfl⟩
  | crashed message => exact ⟨.error hended, rfl⟩
  | done v =>
    obtain ⟨s₁, hwrite, -, hrecorded⟩ := parallel.confined.record n.id v clock
    obtain ⟨s₁', hwrite', -, hrecorded'⟩ := parallel.confined'.record n.id v clock'
    -- the same result is recorded in both, at whatever times
    have houtline : (r'.execution.recordAction n.id v).outline =
        (r.execution.recordAction n.id v).outline :=
      (congrArg (fun e => e.recordAction n.id v) parallel.outline :)
    dsimp only
    rw [hwrite, hwrite']
    refine ⟨.ok ⟨houtline, hrecorded.after _, hrecorded'.after _⟩, ?_⟩
    simp only [List.map_cons, List.map_nil, Deed.outline, houtline, Happening.untimed]

theorem lockstep_of_functional (functional : engine.Functional) (s s' : Storage) :
    Lockstep engine engine (fun _ _ => True) (Run.Parallel s s') where
  twins := .refl engine
  context parallel := (congrArg Execution.context parallel.outline :)
  report h parallel :=
    ⟨parallel.outline, parallel.confined.after h, parallel.confined'.after h⟩
  call := by
    intro n t a a' r r' parallel known known' _
    obtain rfl := Option.some.inj (known.symm.trans known')
    exact parallel_of_call functional known parallel
  first _ := trivial
  rest _ _ := trivial

/-! ### One run -/

/-- What a run that is `Confined` in the world `w` leaves: `row` under the next identifier, behind
the executions of `w`, and nothing else in the tables. -/
structure Adds (w : World) (workflow : Workflow) (triggerType : String) (payload : Fields)
    (row : Execution) (w' : World) : Prop where
  id : row.id = (w.storage.ids.next .execution).1
  workflow : row.workflow = workflow.id
  triggerType : row.triggerType = triggerType
  triggerData : row.triggerData = payload
  storage : ∃ clock, w'.storage =
    Storage.adding { w.storage with ids := (w.storage.ids.next .execution).2 } [row] clock
  events : ∃ news, w'.events = w.events ++ news ∧
    news.filterMap Event.started? = [(row.id, row.workflow, row.triggerType)]

theorem adds_of_begun {workflow : Workflow} {triggerType : String} {payload : Fields} {w w₀ : World}
    (begun : Run.begin workflow triggerType payload w = .ok r w₀)
    (execution : r.execution = Execution.start (w.storage.ids.next .execution).1 workflow.id
      triggerType payload w.now)
    (confined : (leftBy (engine.traverse workflow.id r)).Confined
      { w.storage with ids := (w.storage.ids.next .execution).2 }) :
    Adds w workflow triggerType payload (closing (engine.traverse workflow.id r))
      (conclude w.now (engine.traverse workflow.id r)) := by
  have hsteps := steps_traverse engine workflow.id r
  obtain ⟨hreports, hinner⟩ := hsteps.reports
  have hclosing (ending : Ending) : (closing ending).workflow = (leftBy ending).execution.workflow ∧
      (closing ending).triggerType = (leftBy ending).execution.triggerType ∧
      (closing ending).triggerData = (leftBy ending).execution.triggerData := by
    cases ending <;> exact ⟨rfl, rfl, rfl⟩
  obtain ⟨hworkflow, htype, hdata⟩ := hclosing (engine.traverse workflow.id r)
  have hid := closing_id (engine.traverse workflow.id r)
  rw [hsteps.execution_eq, execution] at hid hworkflow htype hdata
  refine ⟨hid, hworkflow, htype, hdata, ?_, ?_⟩
  · obtain ⟨clock, hclosed⟩ := confined.close
    exact ⟨clock, by rw [storage_conclude, hclosed]⟩
  · obtain ⟨news, hevents, hnames, hnews⟩ := news_execute begun hreports
    rw [execute_apply, begun] at hevents
    refine ⟨news, hevents, ?_⟩
    -- only the first event tells of a start: neither what the steps report nor the outcome does
    have hnone : (happeningsOf (engine.deedsTraversing workflow.id r)).filterMap
        Happening.started? = [] := by
      rw [List.filterMap_eq_nil_iff]
      exact fun h hmem => Happening.started?_of_isInner (hinner h hmem)
    have houtcome : (outcome w.now (engine.traverse workflow.id r)).started? = none := by
      cases engine.traverse workflow.id r <;> rfl
    rw [filterMap_started? hnames, hnews, List.filterMap_cons, List.filterMap_append, hnone,
      List.filterMap_cons, houtcome, hid, hworkflow, htype, execution]
    rfl

theorem execute_of_begun {workflow : Workflow} {triggerType : String} {payload : Fields}
    {w w₀ : World} (begun : Run.begin workflow triggerType payload w = .ok r w₀) :
    engine.execute workflow triggerType payload w =
      .ok (closing (engine.traverse workflow.id r)).id
        (conclude w.now (engine.traverse workflow.id r)) := by
  have hid : (closing (engine.traverse workflow.id r)).id = r.execution.id := by
    rw [closing_id, (steps_traverse engine workflow.id r).execution_eq]
  rw [execute_apply, begun, hid]

/-- In two worlds with the same graphs, `execute` of a functional engine succeeds in both and adds
rows that agree in `status`, `error` and `context`, whatever executions there are. -/
theorem execute_alike (functional : engine.Functional) {w w' : World}
    (calm : w.storage.outages = []) (calm' : w'.storage.outages = [])
    (new : ∀ e ∈ w.storage.tables.executions, e.id ≠ (w.storage.ids.next .execution).1)
    (new' : ∀ e ∈ w'.storage.tables.executions, e.id ≠ (w'.storage.ids.next .execution).1)
    (same : ∀ id, Graph.ofTables w'.storage.tables id = Graph.ofTables w.storage.tables id)
    (workflow : Workflow) (triggerType : String) (payload : Fields) :
    ∃ row row' w₁ w₁', engine.execute workflow triggerType payload w = .ok row.id w₁ ∧
      engine.execute workflow triggerType payload w' = .ok row'.id w₁' ∧
      Adds w workflow triggerType payload row w₁ ∧ Adds w' workflow triggerType payload row' w₁' ∧
      row'.outline = row.outline := by
  obtain ⟨r, begun, hexecution, confined⟩ :=
    Run.begin_confined calm new workflow triggerType payload
  obtain ⟨r', begun', hexecution', confined'⟩ :=
    Run.begin_confined calm' new' workflow triggerType payload
  have hparallel : Run.Parallel { w.storage with ids := (w.storage.ids.next .execution).2 }
      { w'.storage with ids := (w'.storage.ids.next .execution).2 } r r' := by
    refine ⟨?_, confined, confined'⟩
    rw [hexecution, hexecution']
    rfl
  have hcalm {s : Storage} {r : Run} (h : r.Confined s) : r.world.storage.outages = [] := by
    obtain ⟨clock, hstorage⟩ := h.storage
    rw [hstorage]
    exact h.calm
  -- both runs load the graph of the rows that the worlds have in common
  have hload := Graph.load_of_calm (hcalm confined) workflow.id
  have hload' := Graph.load_of_calm (hcalm confined') workflow.id
  rw [ofTables_begin begun] at hload
  rw [ofTables_begin begun', same] at hload'
  have hgiven : r'.execution.triggerData = r.execution.triggerData := by
    rw [hexecution, hexecution']
    rfl
  obtain ⟨hends, -⟩ := (lockstep_of_functional functional _ _).traverse hparallel hgiven
    (by rw [hload, hload']; exact .ok hparallel) trivial
  have hrow := adds_of_begun begun hexecution hends.leftBy.confined
  have hrow' := adds_of_begun begun' hexecution' hends.leftBy.confined'
  have hclosing : (closing (engine.traverse workflow.id r')).outline =
      (closing (engine.traverse workflow.id r)).outline := by
    generalize engine.traverse workflow.id r = ending at hends ⊢
    generalize engine.traverse workflow.id r' = ending' at hends ⊢
    cases hends with
    | ok related => exact (congrArg (fun e => (e.complete default).outline) related.outline :)
    | @error e _ _ related =>
      exact (congrArg (fun x => (x.fail e.message default).outline) related.outline :)
  exact ⟨_, _, _, _, execute_of_begun begun, execute_of_begun begun', hrow, hrow', hclosing⟩

/-! ### One run after the other -/

/-- The row of one of several runs has the status, the error and the context of the row that a run
of `workflow` alone leaves in `w`. -/
structure RunsAlone (engine : Engine) (triggerType : String) (payload : Fields) (w : World)
    (workflow : Workflow) (row : Execution) : Prop where
  alone : ∃ own w', engine.execute workflow triggerType payload w = .ok own.id w' ∧
    w'.storage.tables.executions = w.storage.tables.executions ++ [own] ∧
    row.status = own.status ∧ row.error = own.error ∧ row.context = own.context
  workflow : row.workflow = workflow.id
  triggerType : row.triggerType = triggerType
  triggerData : row.triggerData = payload

end Engine

/-- The next `n` identifiers for rows of a kind. -/
def IdSupply.upcoming (kind : RowKind) : Nat → IdSupply → List Uuid
  | 0, _ => []
  | n + 1, ids => (ids.next kind).1 :: upcoming kind n (ids.next kind).2

/-- The next `n` identifiers for executions are new, and distinct. -/
structure Storage.GivesNew (s : Storage) (n : Nat) : Prop where
  nodup : (s.ids.upcoming .execution n).Nodup
  new : ∀ e ∈ s.tables.executions, e.id ∉ s.ids.upcoming .execution n

namespace Engine

variable {engine : Engine}

/-- Workflows are run one after the other, each as `RunsAlone` in `w₀`. -/
theorem executeAll_alone (functional : engine.Functional) (triggerType : String) (payload : Fields)
    {w₀ : World} (calm₀ : w₀.storage.outages = [])
    (workflows : List Workflow)
    (new₀ : workflows ≠ [] →
      ∀ e ∈ w₀.storage.tables.executions, e.id ≠ (w₀.storage.ids.next .execution).1)
    {w : World} (calm : w.storage.outages = [])
    (same : ∀ id, Graph.ofTables w.storage.tables id = Graph.ofTables w₀.storage.tables id)
    (new : w.storage.GivesNew workflows.length) :
    ∃ rows w', engine.executeAll triggerType payload workflows w =
        .ok (rows.map Execution.id) w' ∧
      rows.map Execution.id = w.storage.ids.upcoming .execution workflows.length ∧
      (∃ ids clock, w'.storage = Storage.adding { w.storage with ids } rows clock) ∧
      List.Forall₂ (engine.RunsAlone triggerType payload w₀) workflows rows ∧
      ∃ news, w'.events = w.events ++ news ∧
        news.filterMap Event.started? =
          rows.map fun row => (row.id, row.workflow, row.triggerType) := by
  induction workflows generalizing w with
  | nil =>
    refine ⟨[], w, rfl, rfl, ⟨w.storage.ids, w.storage.clock, ?_⟩, .nil, [], ?_, rfl⟩
    · unfold Storage.adding
      rw [List.append_nil]
    · rw [List.append_nil]
  | cons workflow workflows ih =>
    obtain ⟨hhead, hnodup⟩ := List.nodup_cons.mp new.nodup
    have hnew : ∀ e ∈ w.storage.tables.executions, e.id ≠ (w.storage.ids.next .execution).1 :=
      fun e he heq => new.new e he (heq ▸ List.mem_cons_self ..)
    obtain ⟨own, row, w', w₁, hown, hrow, howns, hadds, houtline⟩ :=
      execute_alike functional calm₀ calm (new₀ (by simp)) hnew same workflow triggerType payload
    obtain ⟨clock₀, hstorage₀⟩ := howns.storage
    obtain ⟨clock₁, hstorage₁⟩ := hadds.storage
    obtain ⟨news, hevents, hstarts⟩ := hadds.events
    have halone : engine.RunsAlone triggerType payload w₀ workflow row := by
      refine ⟨⟨own, w', hown, ?_, (congrArg Execution.status houtline :),
        (congrArg Execution.error houtline :), (congrArg Execution.context houtline :)⟩,
        hadds.workflow, hadds.triggerType, hadds.triggerData⟩
      rw [hstorage₀]
      rfl
    -- the row that has been added has the first of the identifiers, and the others are still new
    have hnew₁ : w₁.storage.GivesNew workflows.length := by
      rw [hstorage₁]
      refine ⟨hnodup, fun e he => ?_⟩
      rcases List.mem_append.mp he with hold | hlast
      · exact fun hmem => new.new e hold (List.mem_cons_of_mem _ hmem)
      · obtain rfl := List.mem_singleton.mp hlast
        rw [hadds.id]
        exact hhead
    have hcalm₁ : w₁.storage.outages = [] := by
      rw [hstorage₁]
      exact calm
    have hsame₁ (id : WorkflowId) :
        Graph.ofTables w₁.storage.tables id = Graph.ofTables w₀.storage.tables id := by
      rw [hstorage₁]
      exact same id
    obtain ⟨rows, w₂, hrest, hids, ⟨ids, clock, hstorage₂⟩, hrows, more, hevents₂, hstarts₂⟩ :=
      ih (fun _ => new₀ (by simp)) hcalm₁ hsame₁ hnew₁
    refine ⟨row :: rows, w₂, ?_, ?_, ⟨ids, clock, ?_⟩, .cons halone hrows, news ++ more, ?_, ?_⟩
    · rw [executeAll, bind_of_ok hrow, bind_of_ok hrest]
      rfl
    · rw [List.map_cons, hids, hstorage₁, hadds.id]
      rfl
    · rw [hstorage₂, hstorage₁]
      unfold Storage.adding
      dsimp only
      rw [List.append_assoc, List.singleton_append]
    · rw [hevents₂, hevents, List.append_assoc]
    · rw [List.filterMap_append, hstarts, hstarts₂, List.map_cons, List.singleton_append]

end Engine

/-! ### Firing -/

/-- The live, `active` workflows of an organization with a trigger type, in the order of their rows.
-/
def Tables.waiting (t : Tables) (organization : OrganizationId) (triggerType : TriggerType) :
    List Workflow :=
  t.workflows.filter fun workflow => workflow.organization = organization ∧
    workflow.deleted = false ∧ workflow.status = .active ∧ workflow.triggerType = triggerType

theorem Storage.findActiveWorkflows_of_calm {s : Storage} (calm : s.outages = [])
    (organization : OrganizationId) (triggerType : TriggerType) :
    findActiveWorkflows organization triggerType s =
      .ok (s.tables.waiting organization triggerType) s := by
  have hlisted : listWorkflows organization false s =
      .ok (s.tables.listWorkflows organization false) s :=
    look_of_calm calm .listWorkflows fun t => t.listWorkflows organization false
  have hwaiting : (s.tables.listWorkflows organization false).filter
      (fun workflow => workflow.reactsTo triggerType) =
        s.tables.waiting organization triggerType := by
    rw [Tables.listWorkflows, Tables.waiting, List.filter_filter]
    refine List.filter_congr fun workflow _ => ?_
    rw [Workflow.reactsTo, Workflow.isActive, Bool.eq_iff_iff]
    simp only [Bool.and_eq_true, beq_iff_eq, Bool.not_eq_true', Bool.false_or, decide_eq_true_eq]
    grind
  rw [findActiveWorkflows, bind_of_ok hlisted, pure_apply, hwaiting]

namespace Engine

variable {engine : Engine}

/-- In a store that works, `fire` runs the `waiting` workflows in the order of their rows and
answers with the identifiers of their executions, the next ones of the supply.  Each row
`RunsAlone`, they stand behind the executions before, nothing else in the tables changes, and the
events hold one start for each. -/
theorem fire_dispatches (functional : engine.Functional) (organization : OrganizationId)
    (triggerType : TriggerType) (payload : Fields) {w : World} (calm : w.storage.outages = [])
    (new : w.storage.GivesNew (w.storage.tables.waiting organization triggerType).length) :
    ∃ rows w', engine.fire organization triggerType payload w = .ok (rows.map Execution.id) w' ∧
      rows.map Execution.id = w.storage.ids.upcoming .execution
        (w.storage.tables.waiting organization triggerType).length ∧
      w'.storage.tables =
        { w.storage.tables with executions := w.storage.tables.executions ++ rows } ∧
      List.Forall₂ (engine.RunsAlone (Vocabulary.text triggerType) payload w)
        (w.storage.tables.waiting organization triggerType) rows ∧
      ∃ news, w'.events = w.events ++ news ∧
        news.filterMap Event.started? =
          rows.map fun row => (row.id, row.workflow, row.triggerType) := by
  have hfound : World.access (Storage.findActiveWorkflows organization triggerType) w =
      .ok (w.storage.tables.waiting organization triggerType) w := by
    rw [World.access, Storage.findActiveWorkflows_of_calm calm]
  -- the first identifier that will be drawn is one of the new ones
  have hfirst (hsome : w.storage.tables.waiting organization triggerType ≠ []) :
      ∀ e ∈ w.storage.tables.executions, e.id ≠ (w.storage.ids.next .execution).1 := by
    obtain ⟨n, hn⟩ := Nat.exists_eq_succ_of_ne_zero (List.length_eq_zero_iff.not.mpr hsome)
    intro e he heq
    refine new.new e he ?_
    rw [hn, heq]
    exact List.mem_cons_self ..
  obtain ⟨rows, w', hruns, hids, ⟨ids, clock, hstorage⟩, hrows, hevents⟩ :=
    executeAll_alone functional (Vocabulary.text triggerType) payload calm _ hfirst calm
      (fun _ => rfl) new
  refine ⟨rows, w', ?_, hids, ?_, hrows, hevents⟩
  · rw [fire, bind_of_ok hfound, hruns]
  · rw [hstorage]
    rfl

/-- A store with two workflows that wait for a trigger, and a draft between them. -/
def firingStorage : Storage :=
  { noteStorage with
    tables := { noteStorage.tables with
      workflows :=
        [{ noteWorkflow with status := .active },
         { noteWorkflow with id := Uuid.ofHalves 0 1 },
         { noteWorkflow with id := Uuid.ofHalves 0 2, status := .active }] } }

/-- The two waiting workflows of `firingStorage` are run, and the draft is not. -/
theorem noteEngine_fires :
    ∃ rows w', noteEngine.fire Uuid.nil .eventCreated [] (World.ofStorage firingStorage) =
        .ok (rows.map Execution.id) w' ∧
      rows.map Execution.id = [Uuid.ofHalves 0 1, Uuid.ofHalves 0 2] ∧
      rows.map Execution.workflow = [Uuid.nil, Uuid.ofHalves 0 2] ∧
      w'.storage.tables.executions = rows := by
  have functional : noteEngine.Functional := by
    intro t a known
    obtain rfl := List.mem_singleton.mp (List.mem_of_find?_eq_some known)
    exact ⟨fun _ _ => .done (.string "noted"), fun _ _ s => ⟨s.clock, rfl⟩⟩
  have hwaiting : (World.ofStorage firingStorage).storage.tables.waiting Uuid.nil .eventCreated =
      [{ noteWorkflow with status := .active },
       { noteWorkflow with id := Uuid.ofHalves 0 2, status := .active }] := rfl
  have new : (World.ofStorage firingStorage).storage.GivesNew
      ((World.ofStorage firingStorage).storage.tables.waiting Uuid.nil .eventCreated).length :=
    ⟨by decide +kernel, by simp [World.ofStorage, firingStorage, noteStorage, Tables.empty]⟩
  obtain ⟨rows, w', hfire, hids, htables, hrows, -⟩ :=
    fire_dispatches functional Uuid.nil .eventCreated [] rfl new
  refine ⟨rows, w', hfire, hids, ?_, ?_⟩
  · rw [hwaiting] at hrows
    rcases hrows with _ | ⟨hfirst, _ | ⟨hsecond, _ | _⟩⟩
    rw [List.map_cons, List.map_cons, hfirst.workflow, hsecond.workflow]
    rfl
  · rw [htables]
    rfl

end Engine

end TriggerFlow
