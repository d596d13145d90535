import TriggerFlow.Proofs.Authoring.Calm
import TriggerFlow.Proofs.Authoring.Integrity
import TriggerFlow.Proofs.Builtin.Actions
import TriggerFlow.Proofs.Engine.Deeds
import TriggerFlow.Proofs.Engine.Success
import TriggerFlow.Proofs.Inspection
/-!
# What the inspection of a graph foresees

`Graph.warnings` runs nothing and knows neither the payload nor what actions will do.  Still,
whatever in the structure of a workflow makes a run fail has been announced by one of its warnings
(`validateGraph_foresees_failures`), and without warnings a run can only fail by what it is given or
by what an action does.

For each error there is one reason: the action of a node that is entered is inspected as it is run;
a connection back to the path closes a cycle; and that a connection leads to no node at all is ruled
out by the integrity of what authors write.
-/

namespace TriggerFlow

/-- The bound on the depth, a payload that is refused, and what an action does (`maxDepthExceeded`,
`reservedContextKey`, `actionFailed`, `crashed`) do not lie in the structure of a workflow. -/
def ExecutionError.IsUnforeseeable : ExecutionError → Prop
  | maxDepthExceeded _ | reservedContextKey _ | actionFailed .. | crashed _ => True
  | _ => False

namespace Engine

variable {engine : Engine} {g : Graph} {I : Run → Prop} {hs : List Happening} {e : ExecutionError}

/-- An action node of `g` that is entered, and no other node after it (`EnteredLast`). -/
structure ActionEntered (g : Graph) (hs : List Happening) (n : Node) : Prop where
  kind : n.nodeType = .action
  node : g.node? n.id = some n
  entered : EnteredLast hs n.id

/-- The `messages` announce an error that lies in the structure, as far as they have to: of the node
that is `ActionEntered`, if it is an action that is not run, and otherwise of the graph. -/
def Foreseen (catalogue : Catalogue) (g : Graph) (hs : List Happening) (messages : List String) :
    ExecutionError → Prop
  | .noStartNode => "Workflow has no starting node" ∈ messages
  | .missingActionType id => ∃ n, ActionEntered g hs n ∧ n.id = id ∧ n.actionType = none ∧
      "Action node " ++ n.label ++ " has no action type" ∈ messages
  | .unknownActionType t => ∃ n, ActionEntered g hs n ∧ n.actionType = some t ∧
      catalogue.action? t = none ∧
      "Action node " ++ n.label ++ " uses unknown action type " ++ t ∈ messages
  | .invalidActionConfig errors => errors ≠ [] ∧ ∃ n t action, ActionEntered g hs n ∧
      n.actionType = some t ∧ catalogue.action? t = some action ∧
      action.validate n.config = errors ∧
      errors.map (fun error => "Action node " ++ n.label ++ ": " ++ error) <:+: messages
  | .cycleDetected _ => ∃ id, Relation.TransGen g.LiveEdge id id ∧
      "Graph contains a cycle through node " ++ Uuid.text id ∈ messages
  | .nodeNotFound _ => False
  | .maxDepthExceeded _ | .reservedContextKey _ | .actionFailed .. | .crashed _ | .store _ => True

variable {components : List (List Graph.Place)}

/-! ### What is to blame is foreseen -/

/-- A node that is refused before its action runs fails with the message that `Node.warnings` has
about it. -/
theorem foreseen_of_acts {n : Node} {r r' : Run} (node : g.node? n.id = some n)
    (entered : EnteredLast hs n.id) (h : Acts engine n r (.error e r')) :
    Foreseen engine.catalogue g hs
      ((g.warnings engine.catalogue components).map Warning.message) e := by
  -- the warnings of the node stand among those of the graph, in the order of its own
  have hinfix := Graph.warnings_node_infix engine.catalogue components node
  cases h with
  | untyped kind untyped =>
    have hall : n.warnings engine.catalogue = [.missingActionType n.label] := by
      rw [Node.warnings, kind, untyped]
      rfl
    have hmem : .missingActionType n.label ∈ g.warnings engine.catalogue components :=
      hinfix.subset (hall ▸ List.mem_singleton.mpr rfl)
    exact ⟨n, ⟨kind, node, entered⟩, rfl, untyped, List.mem_map.mpr ⟨_, hmem, rfl⟩⟩
  | @unknown t kind typed unknown =>
    have hall : n.warnings engine.catalogue = [.unknownActionType n.label t] := by
      rw [Node.warnings, kind, typed]
      dsimp only
      rw [unknown]
      rfl
    have hmem : .unknownActionType n.label t ∈ g.warnings engine.catalogue components :=
      hinfix.subset (hall ▸ List.mem_singleton.mpr rfl)
    exact ⟨n, ⟨kind, node, entered⟩, typed, unknown, List.mem_map.mpr ⟨_, hmem, rfl⟩⟩
  | @invalid t a kind typed known invalid =>
    have hall : n.warnings engine.catalogue
        = (a.validate n.config).map (.invalidActionConfig n.label) := by
      rw [Node.warnings, kind, typed]
      dsimp only
      rw [known]
      rfl
    have hmessages := hinfix.map Warning.message
    rw [hall, List.map_map] at hmessages
    exact ⟨invalid, n, t, a, ⟨kind, node, entered⟩, typed, known, rfl, hmessages⟩
  | failed => trivial
  | crashed => trivial
  | unkept => trivial

theorem foreseen_of_blames (h : Blames engine g I hs e)
    (hlive : ∀ c ∈ g.connections, c.target ∈ g.ids) (listed : g.AreComponents components)
    (distinct : g.ids.Nodup) :
    Foreseen engine.catalogue g hs
      ((g.warnings engine.catalogue components).map Warning.message) e := by
  cases h with
  | @refused path c e on_path edge refusal =>
    have hthere := hlive c (Graph.mem_connections_of_edgesBelow edge)
    rcases entry_eq_error_iff.mp refusal with ⟨hback, rfl⟩ | ⟨-, -, rfl⟩ | ⟨-, -, hnone, -⟩
    · have hcycle := on_path.cycle edge hback
      obtain ⟨id, hid, hmem⟩ :=
        Graph.cycle_mem_warnings engine.catalogue listed distinct hcycle
      rw [Foreseen]
      exact ⟨id, hid, List.mem_map.mpr ⟨_, hmem, rfl⟩⟩
    · trivial
    · rw [← Graph.isSome_node?_iff, hnone] at hthere
      cases hthere
  | failed node entered kept acted => exact foreseen_of_acts node entered acted

/-- Where no message is there to announce it, an error that is `Foreseen` lies outside the
structure, or in the store. -/
theorem unforeseeable_of_foreseen {catalogue : Catalogue} {g : Graph}
    (h : Foreseen catalogue g hs [] e) (hstore : ∀ e', e ≠ .store e') : e.IsUnforeseeable := by
  cases e with
  | noStartNode => simp [Foreseen] at h
  | unknownActionType t =>
    obtain ⟨n, -, -, -, hmem⟩ := h
    simp at hmem
  | missingActionType id =>
    obtain ⟨n, -, -, -, hmem⟩ := h
    simp at hmem
  | invalidActionConfig errors =>
    obtain ⟨hsome, n, t, action, -, -, -, -, hinfix⟩ := h
    exact absurd (List.map_eq_nil_iff.mp (List.infix_nil.mp hinfix)) hsome
  | nodeNotFound id => exact h.elim
  | cycleDetected id =>
    obtain ⟨id', -, hmem⟩ := h
    simp at hmem
  | store e' => exact absurd rfl (hstore e')
  | actionFailed | reservedContextKey | maxDepthExceeded | crashed => trivial

/-! ### Whole runs -/

/-- In an `Authored` state and with a store that does its work, let a run fail with an error `e`.
Then `validateGraph` has answered with warnings by which `e` is `Foreseen`, and without any warning
`e` is unforeseeable. -/
theorem validateGraph_foresees_failures {t : Tables} {handles : Authoring.Handles}
    (authored : Authoring.Authored t handles) (engine : Engine) (workflow : Workflow)
    (triggerType : String) (payload : Fields) {w : World} (tables_eq : w.storage.tables = t)
    (calm : w.storage.outages = [])
    (new : ∀ row ∈ t.executions, row.id ≠ (w.storage.ids.next .execution).1)
    (considerate : engine.Considerate (w.storage.ids.next .execution).1)
    {components : Graph → List (List Graph.Place)} (lists : Graph.ListsComponents components) :
    ∃ warnings r news,
      Authoring.validateGraph engine.catalogue workflow components w.storage
        = .ok warnings w.storage ∧
      Run.begin workflow triggerType payload w = .ok r r.world ∧
      (leftBy (engine.execute workflow triggerType payload w)).events = w.events ++ news ∧
      ∀ e r', engine.traverse workflow.id r = .error e r' →
        (∃ ms, (news.map Event.happening).getLast? = some (.executionFailed e.message ms)) ∧
        Foreseen engine.catalogue (Graph.ofTables t workflow.id) (news.map Event.happening)
          (warnings.map Warning.message) e ∧
        (warnings = [] → e.IsUnforeseeable) := by
  subst tables_eq
  obtain ⟨r, hbegin, hid, -, -, hsound⟩ :=
    begin_of_calm workflow triggerType payload calm
  rw [← hid] at new considerate
  have hgraph := ofTables_begin hbegin workflow.id
  have htraverses := traverses_traverse engine workflow.id r
  obtain ⟨-, hstore⟩ := htraverses.soundlyEnded considerate (hsound new)
  obtain ⟨hs, hreports, -, hcauses⟩ :=
    htraverses.blames (keeps_true engine) fun _ _ _ => trivial
  rw [hgraph] at hcauses
  obtain ⟨news, hevents, hnews⟩ := events_execute hbegin hreports
  have hinspect :=
    Authoring.validateGraph_of_calm calm engine.catalogue workflow components
  refine ⟨_, r, news, hinspect, hbegin, hevents, ?_⟩
  intro e r' hending
  -- whatever ends the run is foreseen, and it is not the store
  have hstore : ∀ e', e ≠ .store e' := by
    rintro e' rfl
    exact hstore e' r' hending
  set g := Graph.ofTables w.storage.tables workflow.id with hg
  have hforeseen : Foreseen engine.catalogue g (news.map Event.happening)
      ((g.warnings engine.catalogue (components g)).map Warning.message) e := by
    rcases hcauses e r' hending with ⟨rfl, -⟩ | ⟨e', s, he, -⟩ | ⟨rfl, hidle⟩ | hblames
    · trivial
    · exact absurd he (hstore e')
    · have hmem := Graph.noStartNode_mem_warnings engine.catalogue (components g) hidle
      exact List.mem_map.mpr ⟨_, hmem, rfl⟩
    · -- before the cause the run has reported its start, and after it its failure
      have hblames := hblames.around [.executionStarted workflow.id triggerType]
        [outcome w.now (.error e r')] (by simp [outcome])
      rw [hending, ← List.singleton_append] at hnews
      rw [hnews]
      have hintact := Authoring.intact_of_authored authored
      exact foreseen_of_blames hblames (fun c hc => hintact.target_live hc) (lists g)
        (Graph.nodup_ids_ofRows _ _)
  refine ⟨?_, hforeseen, ?_⟩
  · rw [hnews, hending, ← List.cons_append, List.getLast?_concat]
    exact ⟨_, rfl⟩
  · intro hnone
    rw [hnone] at hforeseen
    exact unforeseeable_of_foreseen hforeseen hstore

def faultyWorkflow : Workflow :=
  .new (Uuid.ofHalves 0 1) Uuid.nil Uuid.nil "faulty" .eventCreated default

/-- The author makes a node whose action is `log`, with a message that is not a string, and connects
it with the trigger. -/
def faultyOperations : List Authoring.Operation :=
  [.create ⟨some "faulty", none, some "event.created", none, none⟩ Uuid.nil Uuid.nil,
   .createNode faultyWorkflow ⟨some "action", some "log", none, some [("message", .null)], none⟩,
   .createConnection faultyWorkflow ⟨none, some (Uuid.ofHalves 0 1), none, none⟩]

def faultyStorage : Storage :=
  Authoring.after (.fresh (.ofNames fun _ n => Uuid.ofHalves 0 n) default) faultyOperations

theorem authored_faultyStorage : ∃ handles, Authoring.Authored faultyStorage.tables handles := by
  have legal : Authoring.Legal (.fresh (.ofNames fun _ n => Uuid.ofHalves 0 n) default) .empty
      faultyOperations :=
    ⟨trivial, ⟨by decide +kernel, by decide +kernel, by decide +kernel⟩,
      List.mem_singleton.mpr rfl, ⟨by decide +kernel, by decide +kernel, by decide +kernel⟩,
      List.mem_singleton.mpr rfl, ⟨by decide +kernel, by decide +kernel, by decide +kernel⟩,
      trivial⟩
  exact ⟨_, Authoring.Authored.empty.after legal⟩

def faultyNode : Node :=
  { Node.action (Uuid.ofHalves 0 1) faultyWorkflow.id "log" with config := [("message", .null)] }

def faultyGraph : Graph :=
  ⟨[faultyNode], [.start (Uuid.ofHalves 0 1) faultyWorkflow.id faultyNode.id]⟩

theorem ofTables_faultyStorage :
    Graph.ofTables faultyStorage.tables faultyWorkflow.id = faultyGraph := by
  have hnodes : faultyStorage.tables.listNodes faultyWorkflow.id true = [faultyNode] := rfl
  have hconnections : faultyStorage.tables.listConnections faultyWorkflow.id =
      faultyGraph.connections := rfl
  have husable : (faultyGraph.connections.filter fun c =>
      !Graph.touches (Graph.tombstones [faultyNode]) c) = faultyGraph.connections := rfl
  rw [Graph.ofTables, hnodes, hconnections, Graph.ofRows, husable, faultyGraph,
    List.mergeSort_singleton]
  rfl

theorem faultyNode_refused {r : Run} (calm : r.world.storage.outages = [])
    (free : Fields.has actionsKey r.execution.triggerData = false)
    (graph : Graph.ofTables r.world.storage.tables faultyWorkflow.id = faultyGraph) :
    ∃ r', Engine.traverse ⟨Builtin.catalogue, 64⟩ faultyWorkflow.id r =
      .error (.invalidActionConfig ["message must be of type string"]) r' := by
  rw [traverse_of_leaf calm free graph rfl rfl rfl]
  exact ⟨_, rfl⟩

/-- The run enters `faultyNode` and fails with what its action says of the settings; this has been
announced, however the components of `faultyGraph` are listed. -/
theorem faultyNode_fails_as_foreseen :
    ∃ warnings news,
      Authoring.validateGraph Builtin.catalogue faultyWorkflow Graph.components faultyStorage
        = .ok warnings faultyStorage ∧
      (leftBy (Engine.execute ⟨Builtin.catalogue, 64⟩ faultyWorkflow "event.created" []
        (World.ofStorage faultyStorage))).events = news ∧
      EnteredLast (news.map Event.happening) faultyNode.id ∧
      (∃ ms, (news.map Event.happening).getLast? = some (.executionFailed
        (ExecutionError.invalidActionConfig ["message must be of type string"]).message ms)) ∧
      ["Action node " ++ faultyNode.label ++ ": " ++ "message must be of type string"]
        <:+: warnings.map Warning.message := by
  obtain ⟨handles, authored⟩ := authored_faultyStorage
  have unused : faultyStorage.tables.executions = [] := rfl
  obtain ⟨warnings, r, news, hinspect, hbegin, hevents, hforeseen⟩ :=
    validateGraph_foresees_failures authored ⟨Builtin.catalogue, 64⟩ faultyWorkflow
      "event.created" [] (w := World.ofStorage faultyStorage) rfl rfl (by simp [unused])
      (considerate_of_reliable Builtin.reliable_catalogue _) Graph.listsComponents_components
  obtain ⟨r₀, hbegin₀, -, hpayload, hcalm, -⟩ :=
    begin_of_calm (w := World.ofStorage faultyStorage) faultyWorkflow "event.created" [] rfl
  obtain ⟨rfl, -⟩ := EStateM.Result.ok.inj (hbegin.symm.trans hbegin₀)
  obtain ⟨r', hending⟩ := faultyNode_refused hcalm (by rw [hpayload]; rfl)
    ((ofTables_begin hbegin _).trans ofTables_faultyStorage)
  obtain ⟨hlast, ⟨-, n, t, action, hentered, -, -, -, hinfix⟩, -⟩ := hforeseen _ _ hending
  -- the graph has no other node
  obtain rfl : n = faultyNode := by
    have hnode := List.mem_of_find?_eq_some hentered.node
    rw [ofTables_faultyStorage] at hnode
    exact List.mem_singleton.mp hnode
  exact ⟨warnings, news, hinspect, by simpa [World.ofStorage, World.events] using hevents,
    hentered.entered, hlast, hinfix⟩

end Engine

end TriggerFlow
