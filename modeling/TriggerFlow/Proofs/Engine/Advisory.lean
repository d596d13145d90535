import TriggerFlow.Proofs.Context.Sight
import TriggerFlow.Proofs.Engine.Completion
import TriggerFlow.Proofs.Graph.Alike
/-!
# Priorities are advisory

The priorities of connections, and the order of their rows, decide in which order a run does things,
and not what becomes of it: where conditions do not read the results of actions and actions serve,
runs of graphs that are `Alike` complete together, enter each node equally often, and find each
condition with one and the same outcome (`priorities_are_advisory`).

Conditions read the payload only then, since the results of actions go under a key that it does not
have (`Informed`).  So it is certain beforehand what a node does (`certainConduct`), and what is
`Passable` does not depend on the order of connections (`Passable.of_alike`).
-/

namespace TriggerFlow

open DepthFirst

namespace Engine

variable {engine : Engine} {g g' : Graph} {path : List NodeId} {id : NodeId} {n : Node}
  {branch : Option ConditionType} {conduct : Conduct} {payload : Fields} {run : ExecutionId}

/-! ### Alike graphs -/

theorem entry_of_alike (halike : g.Alike g') (admitted : engine.entry g path id = .ok n) :
    ∃ n', engine.entry g' path id = .ok n' ∧ n'.duty = n.duty := by
  obtain ⟨hnew, hdepth, node⟩ := entry_eq_ok_iff.mp admitted
  obtain ⟨n', node', hduty⟩ := halike.exists_node node
  exact ⟨n', entry_eq_ok_iff.mpr ⟨hnew, hdepth, node'⟩, hduty⟩

/-- What is certain of a node is the same for its `duty`. -/
def OfDuty (conduct : Conduct) : Prop := ∀ n, conduct n.duty = conduct n

theorem takes_eq_of_arrow_eq {c c' : Connection} (h : c'.arrow = c.arrow) :
    takes branch c' = takes branch c := by
  have hbranch := congrArg Connection.branch h
  change c'.branch = c.branch at hbranch
  simp only [takes, hbranch]

/-- A conduct that goes by duties passes the same nodes in graphs that are `Alike`. -/
theorem Passable.of_alike (halike : g.Alike g') (hconduct : OfDuty conduct)
    (h : Passable engine g conduct path id) : Passable engine g' conduct path id := by
  induction h with
  | @intro path id n branch admitted acting below ih =>
    obtain ⟨n', admitted', hduty⟩ := entry_of_alike halike admitted
    have acting' := (Node.eq_of_duty conduct hconduct hduty).trans acting
    refine .intro admitted' acting' fun c' hc' htaken => ?_
    -- every arrow that leaves the node in the other graph leaves it in this one as well
    obtain ⟨c, hc, harrow⟩ := Graph.exists_of_perm_arrow (halike.outgoing id).symm hc'
    rw [← Graph.target_eq_of_arrow_eq harrow]
    exact ih c hc (by rw [takes_eq_of_arrow_eq harrow, htaken])

theorem passes_of_alike (halike : g.Alike g') (hconduct : OfDuty conduct)
    (h : Passes engine g conduct) : Passes engine g' conduct := by
  obtain ⟨started, hstart⟩ := h
  refine ⟨fun hidle => started ?_, fun c' hc' => ?_⟩
  · have hlength := halike.startEdges.length_eq
    rw [hidle, List.length_map] at hlength
    exact List.length_eq_zero_iff.mp hlength
  · obtain ⟨c, hc, harrow⟩ := Graph.exists_of_perm_arrow halike.startEdges.symm hc'
    rw [← Graph.target_eq_of_arrow_eq harrow]
    exact (hstart c hc).of_alike halike hconduct

theorem sum_taken_of_perm {edges edges' : List Connection}
    (h : (edges.map Connection.arrow).Perm (edges'.map Connection.arrow)) (f : NodeId → Nat) :
    ((edges.filter (takes branch)).map fun c => f c.target).sum =
      ((edges'.filter (takes branch)).map fun c => f c.target).sum := by
  have harrows (edges : List Connection) :
      (edges.filter (takes branch)).map (fun c => f c.target) =
        ((edges.map Connection.arrow).filter (takes branch)).map fun c => f c.target := by
    rw [List.filter_map, List.map_map]
    rfl
  rw [harrows edges, harrows edges']
  exact ((h.filter _).map _).sum_nat

/-- What is `Passable` enters each node equally often in graphs that are `Alike`. -/
theorem Passable.entries_of_alike (halike : g.Alike g') (hconduct : OfDuty conduct) (x : NodeId)
    (h : Passable engine g conduct path id) :
    entries engine g conduct x path id = entries engine g' conduct x path id := by
  induction h with
  | @intro path id n branch admitted acting below ih =>
    obtain ⟨n', admitted', hduty⟩ := entry_of_alike halike admitted
    rw [entries_of_acting admitted acting,
      entries_of_acting admitted' ((Node.eq_of_duty conduct hconduct hduty).trans acting)]
    -- first each summand by induction, and then the order of the summands
    have hbelow : ((g.outgoing id).filter (takes branch)).map
          (fun c => entries engine g conduct x (id :: path) c.target) =
        ((g.outgoing id).filter (takes branch)).map
          (fun c => entries engine g' conduct x (id :: path) c.target) := by
      refine List.map_congr_left fun c hc => ?_
      obtain ⟨hc, htaken⟩ := List.mem_filter.mp hc
      exact ih c hc htaken
    rw [hbelow, sum_taken_of_perm (halike.outgoing id)]

theorem totalEntries_of_alike (halike : g.Alike g') (hconduct : OfDuty conduct)
    (h : Passes engine g conduct) (x : NodeId) :
    totalEntries engine g conduct x = totalEntries engine g' conduct x := by
  have hstart : g.startEdges.map (fun c => entries engine g conduct x [] c.target) =
      g.startEdges.map (fun c => entries engine g' conduct x [] c.target) :=
    List.map_congr_left fun c hc => (h.2 c hc).entries_of_alike halike hconduct x
  have hsum := @sum_taken_of_perm none _ _ halike.startEdges
    fun id => entries engine g' conduct x [] id
  rw [filter_takes_none, filter_takes_none] at hsum
  rw [totalEntries, hstart, hsum, totalEntries]

/-! ### Nodes that are certain -/

def answerOn (payload : Fields) (n : Node) : Bool := Condition.evaluate n.config payload

/-- What a node does if conditions read the payload only and actions that may be called serve: a
condition answers `answerOn payload`, and nothing else gives a branch. -/
def certainConduct (engine : Engine) (payload : Fields) : Conduct := fun n =>
  match n.nodeType with
  | .trigger => some none
  | .condition => some (some (ConditionType.ofBool (answerOn payload n)))
  | .action => (engine.action? n).map fun _ => none

theorem ofDuty_certainConduct : OfDuty (certainConduct engine payload) := fun _ => rfl

/-- The run is `Sound`, and its context is the payload up to what is under `actionsKey`. -/
structure Informed (payload : Fields) (run : ExecutionId) (r : Run) : Prop where
  sound : r.Sound run
  same : SameBesideResults r.execution.context payload

theorem Informed.answer {r : Run} (h : Informed payload run r)
    (reads : Condition.ReadsPayload n.config) :
    Condition.evaluate n.config r.execution.context = answerOn payload n :=
  Condition.evaluate_of_same reads h.same

/-- Conditions read the payload only, and the actions that are `Reached` serve the run. -/
structure Certain (engine : Engine) (g : Graph) (run : ExecutionId) : Prop where
  reads : ∀ id n, g.node? id = some n → n.nodeType = .condition →
    Condition.ReadsPayload n.config
  serves : ∀ id n, g.node? id = some n → g.Reached id →
    ∀ t a, engine.action? n = some (t, a) → a.Serves n.config run

theorem Certain.of_alike (halike : g.Alike g') (h : Certain engine g run) :
    Certain engine g' run := by
  constructor
  · intro id n' node' kind
    obtain ⟨n, node, hduty⟩ := halike.symm.exists_node node'
    have hkind := Node.eq_of_duty Node.nodeType (fun _ => rfl) hduty
    have hconfig := Node.eq_of_duty Node.config (fun _ => rfl) hduty
    rw [← hconfig]
    exact h.reads id n node (hkind.trans kind)
  · intro id n' node' hreached t a haction
    obtain ⟨n, node, hduty⟩ := halike.symm.exists_node node'
    have hknown := Node.eq_of_duty engine.action? (fun _ => rfl) hduty
    have hconfig := Node.eq_of_duty Node.config (fun _ => rfl) hduty
    rw [← hconfig]
    exact h.serves id n node (halike.symm.reached hreached) t a (hknown.trans haction)

theorem Certain.steady (h : Certain engine g run) :
    Steady engine g (Informed payload run) (certainConduct engine payload) := by
  refine ⟨fun r happening h => ⟨sound_after h.sound happening, h.same⟩, ?_, ?_⟩
  · intro id n r hreached node hfailing hinformed
    cases kind : n.nodeType with
    | trigger => simp [certainConduct, kind] at hfailing
    | condition => simp [certainConduct, kind] at hfailing
    | action =>
      have hnone : engine.action? n = none := by simpa [certainConduct, kind] using hfailing
      have hact : engine.act n r = .error (engine.refusal n) r := by rw [act_of_action kind, hnone]
      exact ⟨_, r, hact, hinformed⟩
  · intro id n branch r hreached node hacting hinformed
    cases kind : n.nodeType with
    | trigger =>
      obtain rfl : none = branch := by simpa [certainConduct, kind] using hacting
      exact ⟨none, r, (act_of_trigger engine kind r).1, hinformed, fun _ _ => rfl⟩
    | condition =>
      obtain rfl : some (ConditionType.ofBool (answerOn payload n)) = branch := by
        simpa [certainConduct, kind] using hacting
      have hact := (act_of_condition engine kind r).1
      rw [hinformed.answer (h.reads id n node kind)] at hact
      exact ⟨_, _, hact, ⟨sound_after hinformed.sound _, hinformed.same⟩, fun _ _ => rfl⟩
    | action =>
      rw [certainConduct, kind] at hacting
      obtain ⟨⟨t, a⟩, haction, rfl⟩ := Option.map_eq_some_iff.mp hacting
      obtain ⟨v, r', hcalled, hsound', hexecution⟩ :=
        called_of_serves (t := t) (h.serves id n node hreached t a haction) hinformed.sound
      have hact : engine.act n r = called n t a r := by rw [act_of_action kind, haction]
      refine ⟨none, r', hact.trans hcalled, ⟨hsound', ?_⟩, fun _ _ => rfl⟩
      -- the result goes under the key that no condition reads
      intro key hkey
      rw [hexecution]
      exact (Execution.same_withResult _ _ _ key hkey).trans (hinformed.same key hkey)

theorem answered_of_alike (halike : g.Alike g') {hs : List Happening}
    (h : Answered g' (answerOn payload) hs) : Answered g (answerOn payload) hs := by
  intro id b hmem
  obtain ⟨n', node', rfl⟩ := h id b hmem
  obtain ⟨n, node, hduty⟩ := halike.symm.exists_node node'
  exact ⟨n, node, (Node.eq_of_duty (answerOn payload) (fun _ => rfl) hduty).symm⟩

/-- One function of identifiers gives the outcomes of all conditions that are `Answered`. -/
theorem Answered.exists_result {answer : Node → Bool} {hs : List Happening}
    (h : Answered g answer hs) :
    ∃ result : NodeId → Bool, ∀ id b, .conditionEvaluated id b ∈ hs → b = result id := by
  refine ⟨fun id => (g.node? id).any answer, fun id b hmem => ?_⟩
  obtain ⟨n, node, rfl⟩ := h id b hmem
  simp only [node, Option.any_some]

/-! ### Whole runs -/

/-- The run of `execute` ends with `row` under its identifier and the events `news`. -/
def Ran (engine : Engine) (workflow : Workflow) (triggerType : String) (payload : Fields)
    (w : World) (row : Execution) (news : List Event) : Prop :=
  ∃ id w', engine.execute workflow triggerType payload w = .ok id w' ∧
    w'.storage.tables.getExecution id = some row ∧ w'.events = w.events ++ news

/-- A run of nodes that are `Certain` ends with a row and events: it is `Concluded` as
`certainConduct` has it, and each condition is `Answered` with what `answerOn payload` gives. -/
theorem ran_of_certain {workflow : Workflow} (triggerType : String) {payload : Fields} {w : World}
    (calm : w.storage.outages = [])
    (new : ∀ row ∈ w.storage.tables.executions, row.id ≠ (w.storage.ids.next .execution).1)
    (free : Fields.has actionsKey payload = false)
    (certain : Certain engine (Graph.ofTables w.storage.tables workflow.id)
      (w.storage.ids.next .execution).1) :
    ∃ row news, Ran engine workflow triggerType payload w row news ∧
      Concluded engine (Graph.ofTables w.storage.tables workflow.id)
        (certainConduct engine payload) row (news.map Event.happening) ∧
      Answered (Graph.ofTables w.storage.tables workflow.id) (answerOn payload)
        (news.map Event.happening) := by
  obtain ⟨w', row, news, hexecute, hrow, hevents, hconcluded, hanswered⟩ :=
    execute_of_steady triggerType calm new free certain.steady
      (fun _ h => h.sound) fun _ hsound hcontext => ⟨hsound, fun _ _ => by rw [hcontext]⟩
  refine ⟨row, news, ⟨_, w', hexecute, hrow, hevents⟩, hconcluded, hanswered _ ?_⟩
  exact fun id n r _ node hinformed kind => hinformed.answer (certain.reads id n node kind)

theorem Concluded.status_iff {row : Execution} {hs : List Happening}
    (h : Concluded engine g conduct row hs) :
    row.status = .completed ↔ Passes engine g conduct := by
  refine ⟨fun hstatus => by_contra fun hpasses => ?_, h.completed⟩
  rw [h.failed hpasses] at hstatus
  exact absurd hstatus nofun

/-- Let two workflows have nodes of the same duties and connections of the same arrows in any order,
and let nodes be `Certain`.  Then their runs on one payload complete together, enter each node
equally often if they do, and one function from identifiers to outcomes accounts for every
`conditionEvaluated` of both. -/
theorem priorities_are_advisory (engine : Engine) (workflow workflow' : Workflow)
    (triggerType triggerType' : String) (payload : Fields) (w w' : World)
    (calm : w.storage.outages = []) (calm' : w'.storage.outages = [])
    (new : ∀ row ∈ w.storage.tables.executions, row.id ≠ (w.storage.ids.next .execution).1)
    (new' : ∀ row ∈ w'.storage.tables.executions, row.id ≠ (w'.storage.ids.next .execution).1)
    (free : Fields.has actionsKey payload = false)
    (nodes : (w'.storage.tables.listNodes workflow'.id true).map Node.duty =
      (w.storage.tables.listNodes workflow.id true).map Node.duty)
    (connections : ((w'.storage.tables.listConnections workflow'.id).map Connection.arrow).Perm
      ((w.storage.tables.listConnections workflow.id).map Connection.arrow))
    (certain : Certain engine (Graph.ofTables w.storage.tables workflow.id)
      (w.storage.ids.next .execution).1)
    (certain' : Certain engine (Graph.ofTables w.storage.tables workflow.id)
      (w'.storage.ids.next .execution).1) :
    ∃ row row' news news', Ran engine workflow triggerType payload w row news ∧
      Ran engine workflow' triggerType' payload w' row' news' ∧
      (row.status = .completed ↔ row'.status = .completed) ∧
      (row.status = .completed → ∀ id,
        entriesOf id (news.map Event.happening) = entriesOf id (news'.map Event.happening)) ∧
      ∃ result : NodeId → Bool, ∀ id b,
        .conditionEvaluated id b ∈ news.map Event.happening ++ news'.map Event.happening →
          b = result id := by
  have halike : (Graph.ofTables w.storage.tables workflow.id).Alike
      (Graph.ofTables w'.storage.tables workflow'.id) := Graph.alike_ofRows nodes connections
  obtain ⟨row, news, hran, hconcluded, hanswered⟩ :=
    ran_of_certain triggerType calm new free certain
  obtain ⟨row', news', hran', hconcluded', hanswered'⟩ :=
    ran_of_certain triggerType' calm' new' free (certain'.of_alike halike)
  -- whether a run passes is a matter of arrows and duties, in which the two graphs agree
  have hpasses : Passes engine (Graph.ofTables w.storage.tables workflow.id)
        (certainConduct engine payload) ↔
      Passes engine (Graph.ofTables w'.storage.tables workflow'.id)
        (certainConduct engine payload) :=
    ⟨passes_of_alike halike ofDuty_certainConduct,
      passes_of_alike halike.symm ofDuty_certainConduct⟩
  refine ⟨row, row', news, news', hran, hran', ?_, ?_, ?_⟩
  · rw [hconcluded.status_iff, hconcluded'.status_iff, hpasses]
  · intro hstatus id
    have hpass := hconcluded.status_iff.mp hstatus
    rw [hconcluded.entries hpass, hconcluded'.entries (hpasses.mp hpass),
      totalEntries_of_alike halike ofDuty_certainConduct hpass]
  · exact (hanswered.append (answered_of_alike halike hanswered')).exists_result

def nameNode : Node := .condition (Uuid.ofHalves 0 2) Uuid.nil "name" "equals" (.string "a")

/-- The trigger leads to `nameNode` and to `noteNode`, and the condition to the action if it holds.
-/
def nameConnections : List Connection :=
  [.start (Uuid.ofHalves 0 3) Uuid.nil nameNode.id,
    (Connection.between (Uuid.ofHalves 0 4) Uuid.nil nameNode.id noteNode.id).withBranch .true,
    .start (Uuid.ofHalves 0 5) Uuid.nil noteNode.id]

def nameStorage (connections : List Connection) : Storage :=
  { noteStorage with
    tables := { noteStorage.tables with nodes := [noteNode, nameNode], connections } }

theorem readsPayload_nameNode : Condition.ReadsPayload nameNode.config := by
  intro c hc
  obtain rfl := Option.some.inj hc
  decide

theorem certain_nameStorage (connections : List Connection) (run : ExecutionId) :
    Certain noteEngine (Graph.ofTables (nameStorage connections).tables noteWorkflow.id) run := by
  have hnode {id : NodeId} {n : Node}
      (node : (Graph.ofTables (nameStorage connections).tables noteWorkflow.id).node? id = some n) :
      n = noteNode ∨ n = nameNode := by
    have hmem : n ∈ [noteNode, nameNode] := List.mem_of_find?_eq_some node
    simpa using hmem
  constructor
  · intro id n node kind
    rcases hnode node with rfl | rfl
    · cases kind
    · exact readsPayload_nameNode
  · intro id n node _ t a haction
    rcases hnode node with rfl | rfl
    · obtain rfl : noteAction = a := congrArg Prod.snd (Option.some.inj haction)
      exact noteAction_serves run
    · cases haction

theorem nameStorage_completes_as_reversed :
    ∃ row row' news news',
      Ran noteEngine noteWorkflow "event.created" [("name", .string "a")]
        (World.ofStorage (nameStorage nameConnections)) row news ∧
      Ran noteEngine noteWorkflow "event.created" [("name", .string "a")]
        (World.ofStorage (nameStorage (nameConnections.reverse.map (·.withPriority 7))))
        row' news' ∧
      (row.status = .completed ↔ row'.status = .completed) := by
  obtain ⟨row, row', news, news', hran, hran', hstatus, -⟩ :=
    priorities_are_advisory noteEngine noteWorkflow noteWorkflow "event.created" "event.created"
      [("name", .string "a")] (World.ofStorage (nameStorage nameConnections))
      (World.ofStorage (nameStorage (nameConnections.reverse.map (·.withPriority 7))))
      rfl rfl (fun _ h => nomatch h) (fun _ h => nomatch h) rfl rfl
      ((List.reverse_perm nameConnections).map Connection.arrow)
      (certain_nameStorage nameConnections _) (certain_nameStorage nameConnections _)
  exact ⟨row, row', news, news', hran, hran', hstatus⟩

end Engine

end TriggerFlow
