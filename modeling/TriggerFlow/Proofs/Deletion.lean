import TriggerFlow.Proofs.Engine.Definitions
/-!
# Two ways to delete a node

`softDeleteNode` leaves a tombstone, `hardDeleteNode` removes the row and the connections that touch
it.  The tables that they leave are `Tables.SeenAlike` to those who work from the graph of the
node's workflow (`deletions_seen_alike`): `Graph.ofRows` drops tombstones and the connections that
touch them, so that a tombstone among the rows is as good as no row and no such connections
(`Graph.ofRows_bury`).

Two things can be told (`deletions_told_apart`).  An action may ask the store for the node.  And of
several nodes on a cycle `Graph.warnings` names one that depends on how the components are listed,
which may differ between any two calls of `validateGraph`.
-/

namespace TriggerFlow

/-! ### A tombstone in a graph -/

namespace Graph

theorem touches_append_cons (before after : List NodeId) (id : NodeId) (c : Connection) :
    touches (before ++ id :: after) c =
      (touches (before ++ after) c || (c.target == id || c.source == some id)) := by
  rw [Bool.eq_iff_iff]
  cases hsource : c.source with
  | none =>
    simp only [touches, hsource, Option.any_none, Bool.or_false, List.contains_eq_mem,
      decide_eq_true_eq, List.mem_append, List.mem_cons, Bool.or_eq_true, beq_iff_eq, reduceCtorEq,
      or_false]
    tauto
  | some source =>
    simp only [touches, hsource, Option.any_some, List.contains_eq_mem, decide_eq_true_eq,
      List.mem_append, List.mem_cons, Bool.or_eq_true, beq_iff_eq, Option.some.injEq]
    tauto

/-- A deleted row among `nodes` can be dropped, along with all connections that touch it, without
changing `Graph.ofRows`. -/
theorem ofRows_bury {before after : List Node} {n : Node} (dead : n.deleted = true)
    (connections : List Connection) :
    ofRows (before ++ n :: after) connections =
      ofRows (before ++ after)
        (connections.filter fun c => c.target != n.id && c.source != some n.id) := by
  have hlive : liveNodes (before ++ n :: after) = liveNodes (before ++ after) := by
    rw [liveNodes, liveNodes, List.filter_append, List.filter_append,
      List.filter_cons_of_neg (by simp [dead])]
  have htombs : tombstones (before ++ n :: after) =
      tombstones before ++ n.id :: tombstones after := by
    rw [tombstones, List.filter_append, List.filter_cons_of_pos dead, List.map_append,
      List.map_cons, tombstones, tombstones]
  have htombs' : tombstones (before ++ after) = tombstones before ++ tombstones after := by
    rw [tombstones, List.filter_append, List.map_append, tombstones, tombstones]
  -- to touch no tombstone is not to touch this one, and then none of the others
  have husable : (connections.filter fun c => !touches (tombstones (before ++ n :: after)) c) =
      (connections.filter fun c => c.target != n.id && c.source != some n.id).filter
        fun c => !touches (tombstones (before ++ after)) c := by
    rw [List.filter_filter, htombs, htombs']
    refine List.filter_congr fun c _ => ?_
    rw [touches_append_cons, Bool.not_or, Bool.not_or]
    rfl
  rw [ofRows, ofRows, hlive, husable]

end Graph

/-! ### Both ways -/

namespace Tables

variable {t : Tables} {n : Node} {before after : List Node}

/-- The tables with a tombstone between `before` and `after`. -/
def entombed (t : Tables) (before : List Node) (n : Node) (after : List Node) : Tables :=
  { t with nodes := before ++ { n with deleted := true } :: after }

/-- The tables without a row between `before` and `after`, and without the connections that touch
it. -/
def erased (t : Tables) (before : List Node) (n : Node) (after : List Node) : Tables :=
  { t with
    nodes := before ++ after
    connections := t.connections.filter fun c => c.target != n.id && c.source != some n.id }

theorem softDeleteNode_of_split (split : t.nodes = before ++ n :: after)
    (others : ∀ m ∈ before ++ after, m.id ≠ n.id) :
    t.softDeleteNode n.id = .ok ((), t.entombed before n after) := by
  have hbefore : ∀ m ∈ before, (m.id == n.id) = false := fun m hm => by
    simpa using others m (List.mem_append_left _ hm)
  have hfound : t.getNode n.id true = some n := by
    rw [getNode, split, List.find?_append, List.find?_eq_none.mpr, Option.none_or,
      List.find?_cons_of_pos (by simp)]
    intro m hm
    simp [hbefore m hm]
  rw [softDeleteNode, hfound, split]
  dsimp only
  rw [replaceFirst_append_cons hbefore (by simp), entombed]

theorem hardDeleteNode_of_split (split : t.nodes = before ++ n :: after)
    (others : ∀ m ∈ before ++ after, m.id ≠ n.id) :
    t.hardDeleteNode n.id = .ok ((), t.erased before n after) := by
  have hthere : (t.nodes.any fun m => m.id == n.id) = true := by
    rw [split]
    simp
  have hrest : (t.nodes.filter fun m => m.id != n.id) = before ++ after := by
    rw [split, List.filter_append, List.filter_cons_of_neg (by simp), ← List.filter_append,
      List.filter_eq_self]
    intro m hm
    simpa using others m hm
  rw [hardDeleteNode, if_pos hthere, hrest, erased]

/-- The graph of the node's workflow is the same in `erased` and in `entombed`. -/
theorem ofTables_erased (t : Tables) (before : List Node) (n : Node) (after : List Node) :
    Graph.ofTables (t.erased before n after) n.workflow =
      Graph.ofTables (t.entombed before n after) n.workflow := by
  have hentombed : (t.entombed before n after).listNodes n.workflow true =
      before.filter (fun m => m.workflow == n.workflow) ++ { n with deleted := true } ::
        after.filter (fun m => m.workflow == n.workflow) := by
    simp [listNodes, entombed]
  have herased : (t.erased before n after).listNodes n.workflow true =
      before.filter (fun m => m.workflow == n.workflow) ++
        after.filter (fun m => m.workflow == n.workflow) := by
    simp [listNodes, erased]
  rw [Graph.ofTables, Graph.ofTables, hentombed, herased, Graph.ofRows_bury rfl, listConnections,
    listConnections, erased, entombed, List.filter_filter, List.filter_filter]
  congr 2
  funext c
  exact Bool.and_comm _ _

end Tables

/-- If no two nodes share an identifier, `softDeleteNode` and `hardDeleteNode` of a node succeed and
leave tables that are `SeenAlike` to those who work with its workflow: the same graph, the same
runs, and the same warnings one by one, but that a warning of a cycle may name another node on a
cycle. -/
theorem deletions_seen_alike {t : Tables} (unique : (t.nodes.map Node.id).Nodup) {n : Node}
    (hn : n ∈ t.nodes) {workflow : Workflow} (owner : workflow.id = n.workflow) :
    ∃ soft hard, t.softDeleteNode n.id = .ok ((), soft) ∧ t.hardDeleteNode n.id = .ok ((), hard) ∧
      soft.SeenAlike workflow hard := by
  obtain ⟨before, after, split, others⟩ := Tables.exists_split unique hn
  refine ⟨_, _, Tables.softDeleteNode_of_split split others,
    Tables.hardDeleteNode_of_split split others, Tables.seenAlike_of_graph rfl ?_⟩
  rw [owner]
  exact Tables.ofTables_erased t before n after

/-- The trigger leads to both nodes of this workflow, the first node leads to itself and to the
second one, and the second one acts. -/
def proddedWorkflow : Workflow := .new Uuid.nil Uuid.nil Uuid.nil "prodded" .eventCreated default

def proddedNode : Node := .new (Uuid.ofHalves 0 1) Uuid.nil .trigger

def proddedTables : Tables :=
  { Tables.empty with
    workflows := [proddedWorkflow]
    nodes := [proddedNode, .action (Uuid.ofHalves 0 2) Uuid.nil "prod"]
    connections :=
      [.start Uuid.nil Uuid.nil proddedNode.id,
       .start Uuid.nil Uuid.nil (Uuid.ofHalves 0 2),
       .between Uuid.nil Uuid.nil proddedNode.id proddedNode.id,
       .between Uuid.nil Uuid.nil proddedNode.id (Uuid.ofHalves 0 2)] }

/-- Of the four connections of `proddedTables` one is left if the first node is removed, and all are
left if it becomes a tombstone; the graph is the same, and so are the warnings and the runs of
built-in actions. -/
theorem proddedTables_seen_alike :
    ∃ soft hard, proddedTables.softDeleteNode proddedNode.id = .ok ((), soft) ∧
      proddedTables.hardDeleteNode proddedNode.id = .ok ((), hard) ∧
      soft.connections.length = 4 ∧ hard.connections.length = 1 ∧
      Graph.ofTables hard proddedWorkflow.id = Graph.ofTables soft proddedWorkflow.id ∧
      (∀ catalogue (s : Storage), Together (Storage.Akin Definitions.Any)
        (Authoring.validateGraph catalogue proddedWorkflow Graph.components (s.withTables soft))
        (Authoring.validateGraph catalogue proddedWorkflow Graph.components (s.withTables hard))) ∧
      ∀ maxDepth triggerType payload (w : World), Together (World.Akin Definitions.Any)
        (Engine.execute ⟨Builtin.catalogue, maxDepth⟩ proddedWorkflow triggerType payload
          (w.withTables soft))
        (Engine.execute ⟨Builtin.catalogue, maxDepth⟩ proddedWorkflow triggerType payload
          (w.withTables hard)) := by
  have unique : (proddedTables.nodes.map Node.id).Nodup := by decide
  have owner : proddedWorkflow.id = proddedNode.workflow := rfl
  obtain ⟨soft, hard, hsoft, hhard, halike⟩ :=
    deletions_seen_alike unique (List.mem_cons_self ..) owner
  refine ⟨soft, hard, hsoft, hhard, ?_, ?_, halike.graph,
    fun catalogue => halike.inspection catalogue _, fun maxDepth => ?_⟩
  · obtain ⟨stored, -, rfl⟩ := Tables.softDeleteNode_eq_ok hsoft
    rfl
  · rw [Tables.hardDeleteNode_eq_ok hhard]
    decide
  · exact halike.runs _ _ (Engine.indifferent_of_builtin rfl _) trivial

/-! ### An action that can tell -/

/-- An engine whose action deletes `proddedNode`, and answers whether it was there. -/
def proddingEngine : Engine :=
  ⟨⟨[],
    [{ id := "prod", name := "Prod", description := "", category := defaultCategory, schema := []
       validate := fun _ => []
       run := fun _ _ s =>
        match Storage.softDeleteNode proddedNode.id s with
        | .ok _ s' => (.done (.bool true), s')
        | .error _ s' => (.done (.bool false), s') }]⟩, 64⟩

/-- The results in the contexts of the executions that a run of `proddingEngine` leaves. -/
def prodded (workflow : Workflow) (t : Tables) : List (Option Fields) :=
  let storage := Storage.fresh (.ofNames fun _ n => Uuid.ofHalves 0 n) default
  (leftBy (proddingEngine.execute workflow "event.created" []
    ((World.ofStorage storage).withTables t))).storage.tables.executions.map Execution.actions

/-- A graph in which the trigger leads to a node that acts, and that is all. -/
def proddedGraph (workflow : WorkflowId) (connection : ConnectionId) : Graph :=
  ⟨[.action (Uuid.ofHalves 0 2) workflow "prod"],
    [.start connection workflow (Uuid.ofHalves 0 2)]⟩

theorem ofRows_eq_proddedGraph (workflow : WorkflowId) (connection : ConnectionId)
    {nodes : List Node} {connections : List Connection}
    (live : Graph.liveNodes nodes = (proddedGraph workflow connection).nodes)
    (usable : (connections.filter fun c => !Graph.touches (Graph.tombstones nodes) c) =
      (proddedGraph workflow connection).connections) :
    Graph.ofRows nodes connections = proddedGraph workflow connection := by
  rw [Graph.ofRows, live, usable, proddedGraph, List.mergeSort_singleton]

/-- The tables hold `proddedNode`, and two nodes that lead to each other, in a workflow whose
trigger leads nowhere. -/
def loopedTables : Tables :=
  { Tables.empty with
    workflows := [proddedWorkflow]
    nodes :=
      [proddedNode, .action (Uuid.ofHalves 0 2) Uuid.nil "log",
       .action (Uuid.ofHalves 0 3) Uuid.nil "log"]
    connections :=
      [.between Uuid.nil Uuid.nil (Uuid.ofHalves 0 2) (Uuid.ofHalves 0 3),
       .between Uuid.nil Uuid.nil (Uuid.ofHalves 0 3) (Uuid.ofHalves 0 2)] }

/-- `proddingEngine` finds a tombstone in `proddedTables`, but not a row that has been removed.
After either deletion in `loopedTables` the graph is the same and has one cycle of two nodes, and
the warning of the cycle may name the one or the other: `soft.NamedApart proddedWorkflow hard`. -/
theorem deletions_told_apart :
    ((proddedTables.nodes.map Node.id).Nodup ∧ proddedNode ∈ proddedTables.nodes ∧
      ∃ soft hard, proddedTables.softDeleteNode proddedNode.id = .ok ((), soft) ∧
        proddedTables.hardDeleteNode proddedNode.id = .ok ((), hard) ∧
        prodded proddedWorkflow soft = [some [((Uuid.ofHalves 0 2).text, .bool true)]] ∧
        prodded proddedWorkflow hard = [some [((Uuid.ofHalves 0 2).text, .bool false)]]) ∧
    (loopedTables.nodes.map Node.id).Nodup ∧ proddedNode ∈ loopedTables.nodes ∧
      ∃ soft hard, loopedTables.softDeleteNode proddedNode.id = .ok ((), soft) ∧
        loopedTables.hardDeleteNode proddedNode.id = .ok ((), hard) ∧
        Graph.ofTables hard proddedWorkflow.id = Graph.ofTables soft proddedWorkflow.id ∧
        soft.NamedApart proddedWorkflow hard := by
  refine ⟨⟨by decide, List.mem_cons_self .., _, _, rfl, rfl, ?_, ?_⟩, by decide,
    List.mem_cons_self .., ?_⟩
  case refine_3 =>
    have split : loopedTables.nodes = [] ++ proddedNode :: loopedTables.nodes.tail := rfl
    have others : ∀ m ∈ [] ++ loopedTables.nodes.tail, m.id ≠ proddedNode.id := by decide
    have same := Tables.ofTables_erased loopedTables [] proddedNode loopedTables.nodes.tail
    refine ⟨_, _, Tables.softDeleteNode_of_split split others,
      Tables.hardDeleteNode_of_split split others, same, ?_⟩
    refine Tables.namedApart_of_linked (a := Uuid.ofHalves 0 2) (b := Uuid.ofHalves 0 3) same
      (by decide) ?_ ?_
    · exact ⟨⟨by decide, by decide⟩, ⟨by decide, by decide⟩, by decide⟩
    · exact ⟨⟨by decide, by decide⟩, ⟨by decide, by decide⟩, by decide⟩
  all_goals
    rw [prodded, Engine.execute_of_leaf rfl rfl rfl
      (ofRows_eq_proddedGraph Uuid.nil Uuid.nil rfl rfl) rfl rfl rfl]
    rfl

end TriggerFlow
