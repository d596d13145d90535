import TriggerFlow.Proofs.Authoring.Calm
import TriggerFlow.Proofs.Authoring.Reference
import TriggerFlow.Proofs.Engine.Deeds
import TriggerFlow.Proofs.Engine.PathStack
import TriggerFlow.Proofs.Uses
/-!
# Tombstones are permanent

What has been deleted stays a tombstone until it is removed, whatever authors, runs and dispatched
events do with rows that they have read before, and nobody gets to see it any more
(`tombstones_are_permanent`): it is not found and not listed, a workflow is not run when an event is
dispatched (`HidesWorkflow`), and a node is neither connected nor entered (`HidesNode`).

All of this follows from one fact about the tables, that whoever has the identifier is a tombstone
(`Tables.BuriedWorkflow`, `Tables.BuriedNode`).
-/

namespace TriggerFlow

/-! ### What a run tells -/

namespace Engine

variable (engine : Engine) (workflow : Workflow) (triggerType : String) (payload : Fields)
  (w : World)

/-- The `executionStarted` that a run reports is of its own workflow. -/
theorem tells_starts : w.Tells
    (fun x => ∀ id type, x = .executionStarted id type → id = workflow.id)
    (leftBy (engine.execute workflow triggerType payload w)) := by
  refine tells_execute engine workflow triggerType payload w ?_ ?_ ?_
  · rintro id type heq
    exact (Happening.executionStarted.inj heq).1.symm
  · intro r w' _
    obtain ⟨hreports, hinner⟩ := (steps_traverse engine workflow.id r).reports
    refine ⟨_, hreports, ?_⟩
    rintro x hx id type rfl
    exact Bool.noConfusion (hinner _ hx)
  · rintro (_ | _) id type heq <;> cases heq

/-- The nodes that a run enters are live when it begins. -/
theorem tells_entries : w.Tells
    (fun x => ∀ id kind depth, x = .nodeEntered id kind depth →
      id ∈ (Graph.ofTables w.storage.tables workflow.id).ids)
    (leftBy (engine.execute workflow triggerType payload w)) := by
  refine (tells_paths engine workflow triggerType payload w).mono ?_
  intro x hpaths id kind depth heq
  obtain ⟨p, hpath⟩ := hpaths id kind depth heq
  exact hpath.live id (by simp)

end Engine

/-! ### The runs of a workflow -/

namespace Tables

variable {t : Tables} {id : Uuid}

/-- The identifiers of `listExecutions`, in their order. -/
def runsOf (t : Tables) (workflow : WorkflowId) : List ExecutionId :=
  (t.listExecutions workflow).map Execution.id

/-- Writing over a row leaves the executions of a workflow the ones they were. -/
theorem runs_replaceFirst {p : Execution → Bool} {as : List Execution} {stored : Execution}
    (found : as.find? p = some stored) (row : Execution) (workflow : WorkflowId) :
    ((replaceFirst p (written stored row) as).filter fun e => e.workflow == workflow).map
        Execution.id =
      (as.filter fun e => e.workflow == workflow).map Execution.id := by
  induction as with
  | nil => rfl
  | cons b bs ih =>
    rw [replaceFirst]
    cases hb : p b with
    | true =>
      rw [List.find?_cons_of_pos hb] at found
      obtain rfl := Option.some.inj found
      rw [if_pos rfl, List.filter_cons, List.filter_cons]
      -- of its workflow and its identifier nothing is overwritten
      show List.map _ (if (b.workflow == workflow) = true then _ else _) = _
      split <;> rfl
    | false =>
      rw [List.find?_cons_of_neg (by simp [hb])] at found
      rw [if_neg Bool.false_ne_true, List.filter_cons, List.filter_cons]
      split
      · rw [List.map_cons, List.map_cons, ih found]
      · exact ih found

/-- An operation that inserts no execution of a workflow leaves `runsOf` it as it was. -/
theorem runsOf_after {op : Operation}
    (others : ∀ row, op = .insertExecution row → row.workflow ≠ id) :
    (t.after op).runsOf id = t.runsOf id := by
  have htouches := touches_after t op
  unfold runsOf listExecutions
  generalize (t.after op).executions = rows at htouches ⊢
  cases htouches with
  | nothing => rfl
  | @insert row =>
    have hother : [row].filter (fun e => e.workflow == id) = [] := by
      rw [List.filter_cons_of_neg (by simpa using others row rfl), List.filter_nil]
    rw [List.filter_append, hother, List.append_nil]
  | write found => exact runs_replaceFirst found _ _

end Tables

namespace Engine

variable {engine : Engine} {id : WorkflowId}

/-- A run of another workflow, by actions that add no execution of this one either, leaves `runsOf`
this one as it was. -/
theorem runsOf_execute
    (restricted : engine.Restricted (fun _ => True) fun _ op =>
      ∀ row, op = .insertExecution row → row.workflow ≠ id)
    {workflow : Workflow} (hne : workflow.id ≠ id) (triggerType : String) (payload : Fields)
    (w : World) :
    (leftBy (engine.execute workflow triggerType payload w)).storage.tables.runsOf id =
      w.storage.tables.runsOf id := by
  have hwrites (t : Tables) (row : Execution) :
      (t.after (.updateExecution row)).runsOf id = t.runsOf id :=
    Tables.runsOf_after fun _ heq => by cases heq
  have hinserts (t : Tables) (row : Execution) (howner : row.workflow = workflow.id) :
      (t.after (.insertExecution row)).runsOf id = t.runsOf id := by
    refine Tables.runsOf_after ?_
    rintro _ ⟨⟩
    rwa [howner]
  -- actions insert no executions of the workflow either, as they are `Restricted`
  have hactions (t : String) (a : Action) (known : engine.catalogue.action? t = some a)
      (config : Config) (context : Context) (s : Storage)
      (hs : s.tables.runsOf id = w.storage.tables.runsOf id) :
      (a.run config context s).2.tables.runsOf id = w.storage.tables.runsOf id :=
    (restricted t a known config context s trivial).1.keeps
      (P := fun t => t.runsOf id = w.storage.tables.runsOf id)
      (fun t op hop ht => (Tables.runsOf_after hop).trans ht) hs
  have carries : engine.Carries workflow.id _ := carries_of_keeps (G := fun _ => True)
    (P := fun t => t.runsOf id = w.storage.tables.runsOf id) (fun _ _ _ => trivial)
    (fun t row howner ht => (hinserts t row howner).trans ht)
    (fun t row ht => (hwrites t row).trans ht)
    (fun t a known config context s _ hs => ⟨trivial, hactions t a known config context s hs⟩)
  exact (carries.execute triggerType payload w ⟨trivial, rfl⟩).2

end Engine

/-! ### What is hidden -/

namespace Tables

/-- No workflow under `id` is seen in the tables. -/
structure HidesWorkflow (t : Tables) (id : WorkflowId) : Prop where
  /-- Whoever asks for it does not get it: the answer is `notFound`, unless there is an outage. -/
  get : ∀ s : Storage, s.tables = t → (∀ w s', Authoring.get id s ≠ .ok w s') ∧
    (s.outages = [] → Authoring.get id s = .error (.notFound "Workflow not found") s)
  list : ∀ (s : Storage) organization ws s', s.tables = t →
    Authoring.list organization s = .ok ws s' → ∀ w ∈ ws, w.id ≠ id
  /-- Dispatching an event reports no start of it. -/
  fire : ∀ (engine : Engine) organization triggerType payload (w : World), w.storage.tables = t →
    w.Tells (fun x => ∀ type, x ≠ .executionStarted id type)
      (leftBy (engine.fire organization triggerType payload w))
  /-- Dispatching an event adds no execution of it, unless an action does. -/
  runs : ∀ (engine : Engine) organization triggerType payload (w : World), w.storage.tables = t →
    (engine.Restricted (fun _ => True) fun _ op =>
      ∀ row, op = .insertExecution row → row.workflow ≠ id) →
    (leftBy (engine.fire organization triggerType payload w)).storage.tables.runsOf id =
      t.runsOf id

/-- No node under `id` is seen in the tables. -/
structure HidesNode (t : Tables) (id : NodeId) : Prop where
  /-- Whoever asks for it does not get it: the answer is `notFound`, unless there is an outage. -/
  get : ∀ s : Storage, s.tables = t → (∀ n s', Authoring.getNode id s ≠ .ok n s') ∧
    (s.outages = [] → Authoring.getNode id s = .error (.notFound "Node not found") s)
  list : ∀ (s : Storage) workflow ns s', s.tables = t →
    Authoring.listNodes workflow s = .ok ns s' → ∀ n ∈ ns, n.id ≠ id
  /-- No connection from it or to it is made. -/
  connect : ∀ (s : Storage) workflow data, s.tables = t → data.target = some id ∨
    data.source = some id → ∀ c s', Authoring.createConnection workflow data s ≠ .ok c s'
  /-- No run enters it. -/
  execute : ∀ (engine : Engine) workflow triggerType payload (w : World), w.storage.tables = t →
    w.Tells (fun x => ∀ kind depth, x ≠ .nodeEntered id kind depth)
      (leftBy (engine.execute workflow triggerType payload w))
  /-- No run of a round enters it, whatever the actions of the runs before have done, as long as its
  identifier is not given out again. -/
  fire : ∀ (engine : Engine) organization triggerType payload (w : World), w.storage.tables = t →
    engine.Within (fun ids => ids.Never .node id) (.avoiding .node id) →
    w.storage.ids.Never .node id →
    w.Tells (fun x => ∀ kind depth, x ≠ .nodeEntered id kind depth)
      (leftBy (engine.fire organization triggerType payload w))

variable {t : Tables} {id : Uuid}

theorem BuriedWorkflow.hides (buried : t.BuriedWorkflow id) : t.HidesWorkflow id where
  get := by
    rintro s rfl
    refine ⟨fun w s' hget => ?_, fun calm => Authoring.get_of_none calm buried.getWorkflow⟩
    obtain ⟨-, hfound⟩ := Authoring.get_eq_ok hget
    rw [buried.getWorkflow] at hfound
    cases hfound
  list := by
    rintro s organization ws s' rfl hlist
    obtain ⟨-, rfl⟩ := Authoring.look_of_access hlist
    exact buried.listWorkflows organization
  fire := by
    rintro engine organization triggerType payload w rfl
    refine Engine.fire_relates (fun _ => .of_eq rfl) .trans (fun _ _ => .of_eq rfl) w ?_
    intro workflow hworkflow hlive w
    refine (engine.tells_starts workflow _ payload w).mono ?_
    rintro x hstart type rfl
    -- a run of it would be a run of a row that is live
    exact buried.ne_of_live hworkflow hlive (hstart id type rfl).symm
  runs := by
    rintro engine organization triggerType payload w rfl restricted
    refine Engine.fire_relates
      (T := fun w w' => w'.storage.tables.runsOf id = w.storage.tables.runsOf id)
      (fun _ => rfl) (fun h h' => h'.trans h) (fun _ _ => rfl) w ?_
    intro workflow hworkflow hlive w
    exact Engine.runsOf_execute restricted (buried.ne_of_live hworkflow hlive) _ payload w

/-- A node that is `BuriedNode` is in no graph. -/
theorem BuriedNode.not_mem_ids (buried : t.BuriedNode id) (workflow : WorkflowId) :
    id ∉ (Graph.ofTables t workflow).ids := by
  rw [Graph.ofTables, Graph.mem_ids_ofRows]
  rintro ⟨n, hn, hlive, hid⟩
  exact buried.ne_of_live (List.mem_of_mem_filter hn) hlive hid

theorem BuriedNode.tells (buried : t.BuriedNode id) (engine : Engine) (workflow : Workflow)
    (triggerType : String) (payload : Fields) {w : World} (htables : w.storage.tables = t) :
    w.Tells (fun x => ∀ kind depth, x ≠ .nodeEntered id kind depth)
      (leftBy (engine.execute workflow triggerType payload w)) := by
  refine (engine.tells_entries workflow triggerType payload w).mono ?_
  rintro x hentry kind depth rfl
  have hlive := hentry id kind depth rfl
  rw [htables] at hlive
  exact buried.not_mem_ids workflow.id hlive

theorem BuriedNode.hides (buried : t.BuriedNode id) : t.HidesNode id where
  get := by
    rintro s rfl
    refine ⟨fun n s' hget => ?_, fun calm => Authoring.getNode_of_none calm buried.getNode⟩
    obtain ⟨-, hfound⟩ := Authoring.getNode_eq_ok hget
    rw [buried.getNode] at hfound
    cases hfound
  list := by
    rintro s workflow ns s' rfl hlist
    obtain ⟨-, rfl⟩ := Authoring.look_of_access hlist
    exact buried.listNodes workflow.id
  connect := by
    rintro s workflow data rfl hend c s' hcreate
    obtain ⟨-, -, ⟨htarget, hsource⟩, hends, -⟩ := Authoring.createConnection_eq_ok hcreate
    have hid : c.target = id ∨ c.source = some id := by
      refine hend.imp (fun h => ?_) (fun h => ?_)
      · exact Option.some.inj (htarget.symm.trans h)
      · exact hsource.symm.trans h
    obtain ⟨n, hfound, -⟩ := hends id hid
    rw [buried.getNode] at hfound
    cases hfound
  execute := fun engine workflow triggerType payload w htables =>
    buried.tells engine workflow triggerType payload htables
  fire := by
    rintro engine organization triggerType payload w rfl within never
    -- after each run the node is still a tombstone, so that the next one does not enter it either
    have hround : w.storage.ids.Never .node id ∧ w.storage.tables.BuriedNode id →
        let left := leftBy (engine.fire organization triggerType payload w)
        (left.storage.ids.Never .node id ∧ left.storage.tables.BuriedNode id) ∧
          w.Tells (fun x => ∀ kind depth, x ≠ .nodeEntered id kind depth) left := by
      refine Engine.fire_relates
        (T := fun w w' => w.storage.ids.Never .node id ∧ w.storage.tables.BuriedNode id →
          (w'.storage.ids.Never .node id ∧ w'.storage.tables.BuriedNode id) ∧
            w.Tells (fun x => ∀ kind depth, x ≠ .nodeEntered id kind depth) w')
        ?_ ?_ ?_ w ?_
      · exact fun w h => ⟨h, .of_eq rfl⟩
      · intro w w' w'' h h' hw
        obtain ⟨hw', htold⟩ := h hw
        obtain ⟨hw'', htold'⟩ := h' hw'
        exact ⟨hw'', htold.trans htold'⟩
      · exact fun w outages h => ⟨h, .of_eq rfl⟩
      · intro workflow _ _ w h
        have hkept := within.keeps (fun _ => not_false) Changes.buriedNode
          (fun _ drawn never => never.next drawn) workflow (Vocabulary.text triggerType) payload h
        exact ⟨hkept, h.2.tells engine workflow _ payload rfl⟩
    exact (hround ⟨never, buried⟩).2

end Tables

/-! ### Deletion -/

namespace Authoring

open Tables

variable {s s' : Storage}

/-- A workflow that has been deleted has a row, and is buried, if identifiers are distinct. -/
theorem buried_of_delete (distinct : s.tables.Distinct) {workflow : Workflow}
    (h : delete workflow s = .ok () s') :
    (∃ w ∈ s'.tables.workflows, w.id = workflow.id) ∧ s'.tables.BuriedWorkflow workflow.id := by
  obtain ⟨stored, hfound, htables⟩ := softDeleteWorkflow_eq_ok
    (Storage.write_eq_ok (f := fun t now => t.softDeleteWorkflow workflow.id now) (access_eq_ok h))
  obtain ⟨hstored, hid, -⟩ := getWorkflow_eq_some hfound
  rw [htables]
  refine ⟨?_, buried_replaceFirst distinct.workflows rfl⟩
  exact exists_replaceFirst (fun _ _ _ _ => hid) ⟨stored, hstored, hid⟩

/-- A node that has been deleted has a row, and is buried, if identifiers are distinct. -/
theorem buried_of_deleteNode (distinct : s.tables.Distinct) {node : Node}
    (h : deleteNode node s = .ok () s') :
    (∃ n ∈ s'.tables.nodes, n.id = node.id) ∧ s'.tables.BuriedNode node.id := by
  obtain ⟨stored, hfound, htables⟩ := softDeleteNode_eq_ok
    (Storage.write_eq_ok (f := fun t _ => t.softDeleteNode node.id) (access_eq_ok h))
  obtain ⟨hstored, hid, -⟩ := getNode_eq_some hfound
  rw [htables]
  refine ⟨?_, buried_replaceFirst distinct.nodes rfl⟩
  exact exists_replaceFirst (fun _ _ _ _ => hid) ⟨stored, hstored, hid⟩

end Authoring

/-! ### The whole -/

/-- After `delete` or `deleteNode`, however the store is used `Later`: as long as the identifier is
not given out again (`Avoids`), it is hidden, and as long as the row is not removed either
(`Spares`), it is there with `deleted = true`. -/
theorem tombstones_are_permanent {s s' : Storage} (distinct : s.tables.Distinct) :
    (∀ workflow, Authoring.delete workflow s = .ok () s' →
      (∀ t, Later (fun use w => use.Avoids .workflow workflow.id w ∧
          use.Spares (.sparingWorkflow workflow.id) w) s'.tables t →
        ∃ row, t.getWorkflow workflow.id true = some row ∧ row.deleted = true) ∧
      ∀ t, Later (Use.Avoids .workflow workflow.id) s'.tables t → t.HidesWorkflow workflow.id) ∧
    (∀ node, Authoring.deleteNode node s = .ok () s' →
      (∀ t, Later (fun use w => use.Avoids .node node.id w ∧
          use.Spares (.sparingNode node.id) w) s'.tables t →
        ∃ row, t.getNode node.id true = some row ∧ row.deleted = true) ∧
      ∀ t, Later (Use.Avoids .node node.id) s'.tables t → t.HidesNode node.id) := by
  constructor
  · intro workflow hdelete
    obtain ⟨hthere, hburied⟩ := Authoring.buried_of_delete distinct hdelete
    constructor
    · intro t later
      -- while nobody removes it the row stays, and it stays marked
      have hstays : (∃ w ∈ t.workflows, w.id = workflow.id) ∧ t.BuriedWorkflow workflow.id := by
        refine later.keeps (P := fun t => (∃ w ∈ t.workflows, w.id = workflow.id) ∧
          t.BuriedWorkflow workflow.id) ?_ ⟨hthere, hburied⟩
        rintro use w ⟨avoids, spares⟩ ⟨hthere, hburied⟩
        exact ⟨spares.keeps (fun _ => not_false) Tables.Changes.workflow_remains hthere,
          avoids.keeps Tables.Changes.buriedWorkflow hburied⟩
      exact hstays.2.tombstone hstays.1
    · intro t later
      -- it may be removed, but no row without the mark comes under its identifier
      have hstays : t.BuriedWorkflow workflow.id :=
        later.keeps (fun use w avoids => avoids.keeps Tables.Changes.buriedWorkflow) hburied
      exact hstays.hides
  · intro node hdelete
    obtain ⟨hthere, hburied⟩ := Authoring.buried_of_deleteNode distinct hdelete
    constructor
    · intro t later
      have hstays : (∃ n ∈ t.nodes, n.id = node.id) ∧ t.BuriedNode node.id := by
        refine later.keeps (P := fun t => (∃ n ∈ t.nodes, n.id = node.id) ∧
          t.BuriedNode node.id) ?_ ⟨hthere, hburied⟩
        rintro use w ⟨avoids, spares⟩ ⟨hthere, hburied⟩
        exact ⟨spares.keeps (fun _ => ⟨not_false, fun _ _ _ => not_false⟩)
            Tables.Changes.node_remains hthere,
          avoids.keeps Tables.Changes.buriedNode hburied⟩
      exact hstays.2.tombstone hstays.1
    · intro t later
      have hstays : t.BuriedNode node.id :=
        later.keeps (fun use w avoids => avoids.keeps Tables.Changes.buriedNode) hburied
      exact hstays.hides

/-- The node of `loopStorage`, as its author has read it. -/
def loopNode : Node := .new (Uuid.ofHalves 0 1) Authoring.loopWorkflow.id .trigger

/-- The store once the node has been deleted.  From now on new rows get another identifier. -/
def loopDeleted : Storage :=
  { leftBy (Authoring.deleteNode loopNode (Authoring.loopStorage 4)) with
    ids := .ofNames fun _ _ => Uuid.nil }

/-- A change of the node, as it was read before its deletion, by which it gets a name. -/
def loopRenaming : Use :=
  .author (.updateNode loopNode ⟨none, none, some "again", none, none⟩)

/-- The change is accepted, and the node is still deleted and not found. -/
theorem loopNode_stays_deleted :
    let left := (loopRenaming.run (World.ofStorage loopDeleted)).storage
    (∃ stored, left.tables.getNode loopNode.id true = some stored ∧ stored.deleted = true) ∧
    left.tables.nodes.map Node.name = [some "again"] ∧
    Authoring.getNode loopNode.id left = .error (.notFound "Node not found") left := by
  have distinct : (Authoring.loopStorage 4).tables.Distinct :=
    ⟨by decide +kernel, by decide +kernel⟩
  have hdelete : Authoring.deleteNode loopNode (Authoring.loopStorage 4) =
      .ok () (leftBy (Authoring.deleteNode loopNode (Authoring.loopStorage 4))) := rfl
  obtain ⟨hstays, hhidden⟩ := (tombstones_are_permanent distinct).2 loopNode hdelete
  have hne : Uuid.nil ≠ loopNode.id := by decide +kernel
  have never : loopDeleted.ids.Never .node loopNode.id := ⟨by decide +kernel, fun _ _ => hne⟩
  have avoids : loopRenaming.Avoids .node loopNode.id (World.ofStorage loopDeleted) :=
    ⟨never, fun _ _ heq => never.next_ne heq.symm, by rintro engine ⟨⟩⟩
  have spares : loopRenaming.Spares (.sparingNode loopNode.id) (World.ofStorage loopDeleted) := by
    refine ⟨trivial, ?_, by rintro engine ⟨⟩⟩
    rintro op ⟨⟩
    -- a change of a node removes nothing
    constructor
    · rintro ⟨⟩
    · rintro n - - ⟨⟩
  refine ⟨hstays _ (.step loopRenaming .refl ⟨avoids, spares⟩), rfl, ?_⟩
  exact ((hhidden _ (.step loopRenaming .refl avoids)).get _ rfl).2 rfl

end TriggerFlow
