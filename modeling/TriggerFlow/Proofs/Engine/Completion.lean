import TriggerFlow.Proofs.Engine.Steady
/-!
# Which graphs are run to the end

Where no connection of a condition is tagged and every action serves, the shape of a graph alone
decides how a run of it ends.  It completes if and only if the trigger leads somewhere, whatever is
reached is live, no cycle is reached, and no way is longer than the bound (`Graph.Completable`);
otherwise it fails (`execute_completes_iff`).

Both directions are read off the ways from the trigger.  If every connection from the trigger is
`Passable`, so is the end of every way below the nodes before it (`passable_of_isWay`); conversely
the end of every way is passable, from the longest ways upwards (`Graph.Completable.passable`).
-/

namespace TriggerFlow

open Relation

namespace Graph

/-- Nothing in the shape of a graph keeps a run from its end: what is `Reached` is live and on no
cycle, and no `IsWay` is longer than `maxDepth`. -/
structure Completable (g : Graph) (maxDepth : Nat) : Prop where
  started : g.startEdges ≠ []
  live : ∀ id, g.Reached id → id ∈ g.ids
  acyclic : ∀ id, g.Reached id → ¬ TransGen g.Edge id id
  short : ∀ path, g.IsWay path → path.length ≤ maxDepth

end Graph

namespace Engine

variable {engine : Engine} {g : Graph} {path : List NodeId} {id : NodeId}

/-- The conduct in which every node acts without a branch, so that every connection is taken. -/
def alwaysOn : Conduct := fun _ => some none

/-! ### Ways that can be passed -/

/-- If the targets of all `startEdges` are `Passable`, so is the end of every way, below the rest of
the way. -/
theorem passable_of_isWay
    (hstart : ∀ c ∈ g.startEdges, Passable engine g alwaysOn [] c.target)
    (h : g.IsWay (id :: path)) : Passable engine g alwaysOn path id := by
  induction path generalizing id with
  | nil =>
    cases h with
    | cons way edge => exact hstart _ edge
  | cons a path ih =>
    cases h with
    | @cons _ c way edge =>
      cases ih way with
      | intro admitted acting below =>
        obtain rfl := Option.some.inj acting
        exact below c edge rfl

theorem completable_of_passes (h : Passes engine g alwaysOn) : g.Completable engine.maxDepth := by
  obtain ⟨started, hstart⟩ := h
  have hentry {id : NodeId} {path : List NodeId} (hway : g.IsWay (id :: path)) :
      id ∉ path ∧ path.length < engine.maxDepth ∧ id ∈ g.ids := by
    cases passable_of_isWay hstart hway with
    | intro admitted =>
      obtain ⟨hnew, hdepth, hnode⟩ := entry_eq_ok_iff.mp admitted
      exact ⟨hnew, hdepth, Graph.mem_ids_of_node? hnode⟩
  refine ⟨started, ?_, ?_, ?_⟩
  · intro id hreached
    obtain ⟨path, hway⟩ := Graph.reached_iff.mp hreached
    exact (hentry hway).2.2
  · -- a way that goes round a cycle would enter a node below itself
    intro id hreached hcycle
    obtain ⟨path, hway⟩ := Graph.reached_iff.mp hreached
    obtain ⟨more, hround⟩ := hway.extend hcycle
    exact (hentry hround).1 (List.mem_append_right _ List.mem_cons_self)
  · intro path hway
    cases path with
    | nil => exact Nat.zero_le _
    | cons id path =>
      obtain ⟨-, hdepth, -⟩ := hentry hway
      exact hdepth

end Engine

namespace Graph

variable {engine : Engine} {g : Graph} {path : List NodeId} {id : NodeId}

/-- The end of a way is admitted by `Engine.entry` below the rest of the way. -/
theorem Completable.entry_eq_ok (h : g.Completable engine.maxDepth) (hway : g.IsWay (id :: path)) :
    ∃ n, engine.entry g path id = .ok n := by
  have hreached : g.Reached id := reached_iff.mpr ⟨path, hway⟩
  have hnew : id ∉ path := fun hback => h.acyclic id hreached (hway.leads id hback)
  have hdepth : path.length < engine.maxDepth := h.short _ hway
  obtain ⟨n, hnode⟩ := Option.isSome_iff_exists.mp (isSome_node?_iff.mpr (h.live id hreached))
  exact ⟨n, Engine.entry_eq_ok_iff.mpr ⟨hnew, hdepth, hnode⟩⟩

/-- The end of a way is `Passable`.  The induction is on how much longer a way may become. -/
theorem Completable.passable (h : g.Completable engine.maxDepth) (hway : g.IsWay (id :: path)) :
    Engine.Passable engine g Engine.alwaysOn path id := by
  obtain ⟨room, hroom⟩ : ∃ room, room = engine.maxDepth - path.length := ⟨_, rfl⟩
  induction room generalizing path id with
  | zero =>
    have hdepth : path.length < engine.maxDepth := h.short _ hway
    omega
  | succ room ih =>
    obtain ⟨n, hn⟩ := h.entry_eq_ok hway
    refine .intro hn rfl fun c hc _ => ih (hway.cons hc) ?_
    rw [List.length_cons]
    omega

end Graph

namespace Engine

variable {engine : Engine} {g : Graph}

theorem passes_iff_completable :
    Passes engine g alwaysOn ↔ g.Completable engine.maxDepth := by
  constructor
  · exact completable_of_passes
  · intro h
    exact ⟨h.started, fun c hc => h.passable (Graph.IsWay.nil.cons hc)⟩

/-! ### Whole runs -/

/-- Where conditions have untagged connections only and every action that is reached serves, nodes
conduct themselves as `alwaysOn` says. -/
theorem steady_alwaysOn {run : ExecutionId}
    (untagged : ∀ n ∈ g.nodes, n.nodeType = .condition → ∀ c ∈ g.outgoing n.id, c.branch = none)
    (able : ∀ n ∈ g.nodes, n.nodeType = .action → g.Reached n.id →
      ∃ t a, engine.action? n = some (t, a) ∧ a.Serves n.config run) :
    Steady engine g (Run.Sound run) alwaysOn := by
  refine ⟨fun r happening h => sound_after h happening,
    fun _ _ _ _ _ hfailing _ => absurd hfailing (Option.some_ne_none none), ?_⟩
  intro id n branch r hreached node hacting hsound
  obtain rfl := Option.some.inj hacting
  have hmem := List.mem_of_find?_eq_some node
  obtain rfl := DepthFirst.id_of_node? node
  cases kind : n.nodeType with
  | trigger => exact ⟨none, r, (act_of_trigger engine kind r).1, hsound, fun _ _ => rfl⟩
  | condition =>
    refine ⟨_, _, (act_of_condition engine kind r).1, sound_after hsound _, fun c hc => ?_⟩
    simp only [takes, untagged n hmem kind c hc]
  | action =>
    obtain ⟨t, a, haction, hserves⟩ := able n hmem kind hreached
    obtain ⟨v, r', hcalled, hsound', -⟩ := called_of_serves (t := t) hserves hsound
    have hact : engine.act n r = called n t a r := by rw [act_of_action kind, haction]
    exact ⟨none, r', hact.trans hcalled, hsound', fun _ _ => rfl⟩

/-- In a store without outages, with conditions whose connections are not tagged and actions that
serve, a run ends with a row, which says `completed` if the graph is `Completable` and `failed` if
it is not. -/
theorem execute_completes_iff (engine : Engine) (workflow : Workflow) (triggerType : String)
    (payload : Fields) {w : World} (calm : w.storage.outages = [])
    (new : ∀ row ∈ w.storage.tables.executions, row.id ≠ (w.storage.ids.next .execution).1)
    (free : Fields.has actionsKey payload = false)
    (untagged : ∀ n ∈ (Graph.ofTables w.storage.tables workflow.id).nodes,
      n.nodeType = .condition →
        ∀ c ∈ (Graph.ofTables w.storage.tables workflow.id).outgoing n.id, c.branch = none)
    (able : ∀ n ∈ (Graph.ofTables w.storage.tables workflow.id).nodes, n.nodeType = .action →
      (Graph.ofTables w.storage.tables workflow.id).Reached n.id →
        ∃ t a, engine.action? n = some (t, a) ∧
          a.Serves n.config (w.storage.ids.next .execution).1) :
    ∃ id w' row, engine.execute workflow triggerType payload w = .ok id w' ∧
      w'.storage.tables.getExecution id = some row ∧
      (row.status = .completed ↔
        (Graph.ofTables w.storage.tables workflow.id).Completable engine.maxDepth) ∧
      (row.status = .failed ↔
        ¬ (Graph.ofTables w.storage.tables workflow.id).Completable engine.maxDepth) := by
  obtain ⟨w', row, news, hexecute, hrow, -, hconcluded, -⟩ :=
    execute_of_steady triggerType calm new free (steady_alwaysOn untagged able)
      (fun _ h => h) (fun _ h _ => h)
  refine ⟨_, w', row, hexecute, hrow, ?_⟩
  -- no connection is skipped (`alwaysOn`), so that passing is a matter of graph and bound
  rw [← passes_iff_completable]
  by_cases hpasses : Passes engine (Graph.ofTables w.storage.tables workflow.id) alwaysOn
  · have hstatus := hconcluded.completed hpasses
    simp [hstatus, hpasses]
  · have hstatus := hconcluded.failed hpasses
    simp [hstatus, hpasses]

theorem noteAction_serves (run : ExecutionId) : noteAction.Serves noteNode.config run :=
  fun _ s hruns => ⟨.string "noted", s, rfl, hruns⟩

theorem noteStorage_outgoing (id : NodeId) :
    (Graph.ofTables noteStorage.tables noteWorkflow.id).outgoing id = [] := by
  simp [Graph.outgoing, Graph.ofTables, Graph.ofRows, Tables.listNodes, Tables.listConnections,
    noteStorage, noteNode, noteWorkflow, Workflow.new, Node.action, Node.new, Connection.start,
    Graph.tombstones, Graph.touches]

theorem noteStorage_completable :
    (Graph.ofTables noteStorage.tables noteWorkflow.id).Completable 64 := by
  have hnone {id : NodeId} {c : Connection} :
      c ∉ (Graph.ofTables noteStorage.tables noteWorkflow.id).outgoing id := by
    simp [noteStorage_outgoing]
  refine ⟨by simp [noteStorage_startEdges], ?_, ?_, ?_⟩
  · intro id hreached
    cases hreached with
    | start edge =>
      rw [noteStorage_startEdges] at edge
      rw [List.mem_singleton.mp edge]
      exact List.mem_cons_self
    | onward reached edge => exact absurd edge hnone
  · intro id hreached hcycle
    obtain ⟨_, ⟨c, hc, -⟩, -⟩ := TransGen.head'_iff.mp hcycle
    exact hnone hc
  · intro path hway
    cases hway with
    | nil => exact Nat.zero_le _
    | @cons path c way edge =>
      cases path with
      | nil => exact Nat.le_of_ble_eq_true rfl
      | cons a path => exact absurd edge hnone

/-- A store in which the trigger leads to the action, and the action back to itself. -/
def circlingStorage : Storage :=
  { noteStorage with
    tables := { noteStorage.tables with
      connections := [.start Uuid.nil Uuid.nil noteNode.id,
        .between (Uuid.ofHalves 0 2) Uuid.nil noteNode.id noteNode.id] } }

theorem circlingStorage_not_completable :
    ¬ (Graph.ofTables circlingStorage.tables noteWorkflow.id).Completable 64 := by
  have hconnections (c : Connection) (hc : c ∈ circlingStorage.tables.connections)
      (hmine : (c.workflow == noteWorkflow.id) = true) :
      c ∈ (Graph.ofTables circlingStorage.tables noteWorkflow.id).connections := by
    have hnone : Graph.tombstones (circlingStorage.tables.listNodes noteWorkflow.id true) = [] :=
      rfl
    refine Graph.mem_connections_ofRows.mpr ⟨List.mem_filter.mpr ⟨hc, hmine⟩, ?_⟩
    rw [hnone]
    simp [Graph.touches]
  intro h
  have hstart : .start Uuid.nil Uuid.nil noteNode.id ∈
      (Graph.ofTables circlingStorage.tables noteWorkflow.id).startEdges :=
    List.mem_filter.mpr ⟨hconnections _ (.head _) rfl, rfl⟩
  have hback : .between (Uuid.ofHalves 0 2) Uuid.nil noteNode.id noteNode.id ∈
      (Graph.ofTables circlingStorage.tables noteWorkflow.id).outgoing noteNode.id :=
    List.mem_filter.mpr ⟨hconnections _ (.tail _ (.head _)) rfl, beq_self_eq_true _⟩
  exact h.acyclic noteNode.id (.start hstart) (.single ⟨_, hback, rfl⟩)

/-- The run of `noteStorage` completes, and that of `circlingStorage` fails. -/
theorem noteStorage_completes_circlingStorage_fails :
    (∃ id w' row, noteEngine.execute noteWorkflow "event.created" []
        (World.ofStorage noteStorage) = .ok id w' ∧
      w'.storage.tables.getExecution id = some row ∧ row.status = .completed) ∧
    (∃ id w' row, noteEngine.execute noteWorkflow "event.created" []
        (World.ofStorage circlingStorage) = .ok id w' ∧
      w'.storage.tables.getExecution id = some row ∧ row.status = .failed) := by
  have hnode (c : List Connection) :
      ∀ n ∈ (Graph.ofTables { noteStorage.tables with connections := c } noteWorkflow.id).nodes,
        n = noteNode := fun n hn => List.mem_singleton.mp hn
  have huntagged (c : List Connection) :
      ∀ n ∈ (Graph.ofTables { noteStorage.tables with connections := c } noteWorkflow.id).nodes,
        n.nodeType ≠ .condition := by
    intro n hn
    rw [hnode c n hn]
    exact nofun
  have hable (c : List Connection) (run : ExecutionId) :
      ∀ n ∈ (Graph.ofTables { noteStorage.tables with connections := c } noteWorkflow.id).nodes,
        ∃ t a, noteEngine.action? n = some (t, a) ∧ a.Serves n.config run := by
    intro n hn
    rw [hnode c n hn]
    exact ⟨"note", noteAction, rfl, noteAction_serves run⟩
  obtain ⟨id, w', row, hexecute, hrow, hcompleted, -⟩ :=
    execute_completes_iff noteEngine noteWorkflow "event.created" []
      (w := World.ofStorage noteStorage) rfl (fun _ h => nomatch h) rfl
      (fun n hn hkind => absurd hkind (huntagged _ n hn)) (fun n hn _ _ => hable _ _ n hn)
  obtain ⟨id', w'', row', hexecute', hrow', -, hfailed⟩ :=
    execute_completes_iff noteEngine noteWorkflow "event.created" []
      (w := World.ofStorage circlingStorage) rfl (fun _ h => nomatch h) rfl
      (fun n hn hkind => absurd hkind (huntagged _ n hn)) (fun n hn _ _ => hable _ _ n hn)
  exact ⟨⟨id, w', row, hexecute, hrow, hcompleted.mpr noteStorage_completable⟩,
    ⟨id', w'', row', hexecute', hrow', hfailed.mpr circlingStorage_not_completable⟩⟩

end Engine

end TriggerFlow
