import Mathlib.Data.List.Nodup
import TriggerFlow.Proofs.Authoring.Reference
import TriggerFlow.Proofs.Engine.Causes
import TriggerFlow.Proofs.Engine.Deeds
import TriggerFlow.Proofs.Uses
/-!
# Graphs that are read while authors write

A graph is read from the store in two steps, the nodes first and then the connections, and authors
may come in between (`Graph.ReadAcross`).  What they delete meanwhile does no harm: what was read as
live counts as live, and a tombstone takes its connections out of the graph whenever they are read.
What they add does: a connection that is made meanwhile is read without a node that is made
meanwhile, and dangles.

So the graph is whole if and only if every connection that is read leads from and to nodes that were
there when the nodes were read, and a run of it misses no node but one that was made meanwhile
(`whole_iff_of_readAcross`).
-/

namespace TriggerFlow

/-! ### Graphs and runs of them -/

namespace Graph

/-- The ends of every connection are in `g.ids`. -/
def Whole (g : Graph) : Prop :=
  ∀ c ∈ g.connections, ∀ id, c.target = id ∨ c.source = some id → id ∈ g.ids

/-- The graph of a workflow when the nodes are listed from the store `s` and the connections from
`s'`: the two calls of `Graph.load`, with time in between. -/
inductive ReadAcross (workflow : WorkflowId) (s s' : Storage) : Graph → Prop
  | intro {nodes connections left left'}
      (listed : Storage.listNodes workflow true s = .ok nodes left)
      (followed : Storage.listConnections workflow s' = .ok connections left') :
      ReadAcross workflow s s' (ofRows nodes connections)

variable {workflow : WorkflowId} {s s' : Storage} {g : Graph}

/-- A call of `Graph.load` reads across the store and what its first call leaves, whose tables are
the same. -/
theorem readAcross_of_load (h : load workflow s = .ok g s') :
    ∃ left, left.tables = s.tables ∧ ReadAcross workflow s left g := by
  obtain ⟨nodes, left, hnodes, hrest⟩ := bind_eq_ok_iff.mp h
  obtain ⟨connections, left', hconnections, hmade⟩ := bind_eq_ok_iff.mp hrest
  obtain ⟨rfl, -⟩ := EStateM.Result.ok.inj hmade
  exact ⟨left, (Storage.looks_look _ _).reads.of_ok hnodes, .intro hnodes hconnections⟩

theorem ReadAcross.eq (h : ReadAcross workflow s s' g) :
    g = ofRows (s.tables.listNodes workflow true) (s'.tables.listConnections workflow) := by
  cases h with
  | intro listed followed => rw [Storage.look_eq_ok listed, Storage.look_eq_ok followed]

end Graph

namespace Engine

variable {engine : Engine} {g : Graph} {r r' : Run} {id : NodeId}

/-- An error of a visit is that of `follow`. -/
theorem follow_of_visit_error {path : List NodeId} {source : NodeId} {c : Connection}
    {cs : List Connection} {e : ExecutionError} (h : engine.visit g path c.target r = .error e r') :
    engine.follow g path source none (c :: cs) r = .error e r' := by
  rw [follow_cons, if_pos (show takes none c = true from rfl), bind_of_error h]

/-- If a walk ends with `nodeNotFound id`, the node is the target of a connection of the graph and
not live. -/
theorem missing_of_walk (h : engine.walk g r = .error (.nodeNotFound id) r') :
    ∃ c ∈ g.connections, c.target = id ∧ id ∉ g.ids := by
  rw [walk_eq] at h
  split at h
  · cases h
  have walk := walks_follow engine g [] Uuid.nil none g.startEdges r
  rw [h] at walk
  obtain ⟨hs, -, -, hblames⟩ :=
    blames_of_walks walk Graph.isPath_nil (fun c hc => hc) (keeps_true engine) trivial
  cases hblames _ _ rfl with
  | failed node entered kept acted =>
    -- whatever a node fails of, it has been found
    cases acted
  | @refused path c e on_path edge refusal =>
    rcases entry_eq_error_iff.mp refusal with ⟨-, he⟩ | ⟨-, -, he⟩ | ⟨-, -, hnone, he⟩
    · cases he
    · cases he
    · obtain rfl := ExecutionError.nodeNotFound.inj he
      refine ⟨c, Graph.mem_connections_of_edgesBelow edge, rfl, ?_⟩
      rw [← Graph.isSome_node?_iff, hnone]
      exact Bool.false_ne_true

end Engine

namespace Authoring

/-! ### What authors make of a store meanwhile -/

/-- Tables that come about from `t` by operations of authors with the rows in `h`, and the rows that
are in hand then. -/
inductive Onward (t : Tables) (h : Handles) : Tables → Handles → Prop
  | refl : Onward t h t h
  | runs {t' : Tables} {h' : Handles} (executions : List Execution) (onward : Onward t h t' h') :
      Onward t h { t' with executions } h'
  | step {s : Storage} {h' : Handles} (op : Operation) (onward : Onward t h s.tables h')
      (held : op.Held h') (fresh : h'.Fresh s) :
      Onward t h (leftBy (op.run s)).tables (h'.and (handedOut (op.run s)))

variable {s s' : Storage} {t t' : Tables} {h h' given : Handles}

theorem Onward.authored (onward : Onward t h t' h') (authored : Authored t h) :
    Authored t' h' := by
  induction onward with
  | refl => exact authored
  | runs executions onward ih => exact .runs executions ih
  | step op onward held fresh ih => exact .step op ih held fresh

/-- A fact that holds of `Authored` tables, and is kept by runs and by every operation that
succeeds, holds of all tables `Onward` from there. -/
theorem Onward.holds {P : Tables → Handles → Prop} (onward : Onward t h t' h')
    (authored : Authored t h) (now : P t h)
    (runs : ∀ t h executions, P t h → P { t with executions } h)
    (step : ∀ s s' h given op, Authored s.tables h → P s.tables h → Operation.Held h op →
      h.Fresh s → op.run s = .ok given s' → P s'.tables (h.and given)) : P t' h' := by
  induction onward with
  | refl => exact now
  | runs executions onward ih => exact runs _ _ executions ih
  | @step s h' op onward held fresh ih =>
    exact keeps_of_succeeding ih fun given s' =>
      step s s' h' given op (onward.authored authored) ih held fresh

/-- In `Authored` tables no two rows of a kind share an identifier. -/
theorem distinct_of_authored (authored : Authored t h) : t.Distinct := by
  refine authored.holds (P := fun t _ => t.Distinct) ⟨.nil, .nil⟩
    (fun _ _ _ hdistinct => ⟨hdistinct.workflows, hdistinct.nodes⟩) ?_
  intro s s' h given op authored hdistinct held fresh hrun
  refine (changes_of_does (does_of_run hrun)).distinct ?_ hdistinct
  rintro id rfl n hn
  obtain ⟨n', hn', hid, -⟩ := (intact_of_authored authored).known n hn
  rw [hid]
  exact fresh.node n' hn'

/-- After an operation, each connection was there before or has live nodes as its ends. -/
theorem connections_of_does {op : Operation} (does : Does s op given t) :
    ∀ c ∈ t.connections, c ∈ s.tables.connections ∨
      ∀ id, c.target = id ∨ c.source = some id → ∃ n, s.tables.getNode id false = some n := by
  intro c hc
  cases does with
  | createConnection id_eq member ends owner =>
    rcases List.mem_append.mp hc with hc | hc
    · exact .inl hc
    · refine .inr fun id hid => ?_
      rw [List.mem_singleton.mp hc] at hid
      obtain ⟨n, hfound, -⟩ := ends id hid
      exact ⟨n, hfound⟩
  | hardDelete => exact .inl (List.mem_filter.mp hc).1
  | hardDeleteNode => exact .inl (List.mem_filter.mp hc).1
  | deleteConnection => exact .inl (List.mem_filter.mp hc).1
  | look | create | update | delete | createNode | updateNode | deleteNode => exact .inl hc

/-- Since `t` and `h`, rows in hand have been kept, identifiers that were deleted are buried, and a
connection that is new has no end that was deleted in `t`. -/
structure Since (t : Tables) (h : Handles) (t' : Tables) (h' : Handles) : Prop where
  kept : h.nodes ⊆ h'.nodes
  buried : ∀ n ∈ t.nodes, n.deleted = true → t'.BuriedNode n.id
  apart : ∀ c ∈ t'.connections, c ∈ t.connections ∨
    ∀ n ∈ t.nodes, n.deleted = true → ¬ (c.target = n.id ∨ c.source = some n.id)

theorem since_of_onward (authored : Authored t h) (onward : Onward t h t' h') :
    Since t h t' h' := by
  have hdistinct := distinct_of_authored authored
  refine onward.holds authored ⟨List.Subset.refl _, ?_, fun c hc => .inl hc⟩
    (fun _ _ _ hsince => ⟨hsince.kept, hsince.buried, hsince.apart⟩) ?_
  · -- a live row of the same identifier would be a second one
    intro n hn hdeleted m hm hid
    rwa [List.inj_on_of_nodup_map hdistinct.nodes hm hn hid]
  · rintro s s' h' given op - hsince held fresh hrun
    have does := does_of_run hrun
    refine ⟨List.subset_append_of_subset_left _ hsince.kept, ?_, ?_⟩
    · intro n hn hdeleted
      refine (changes_of_does does).buriedNode ?_ (hsince.buried n hn hdeleted)
      -- the identifier of a tombstone is in hand, and so not the next one
      obtain ⟨n', hn', hid, -⟩ := (intact_of_authored authored).known n hn
      rw [hid]
      exact fresh.node n' (hsince.kept hn')
    · intro c hc
      rcases connections_of_does does c hc with hc | hlive
      · exact hsince.apart c hc
      · refine .inr fun n hn hdeleted hend => ?_
        obtain ⟨m, hfound⟩ := hlive n.id hend
        rw [(hsince.buried n hn hdeleted).getNode] at hfound
        cases hfound

/-! ### Two readings -/

variable {workflow : WorkflowId} {c : Connection} {id : NodeId}

/-- A node of `t` that is an end of a connection of `t'` was a node of the same workflow. -/
theorem workflow_eq_of_end (authored : Authored t h) (onward : Onward t h t' h')
    (hc : c ∈ t'.connections) (hend : c.target = id ∨ c.source = some id) {n : Node}
    (hn : n ∈ t.nodes) (hid : n.id = id) : n.workflow = c.workflow := by
  have hintact := intact_of_authored (onward.authored authored)
  obtain ⟨m, hm, hmid, hmw⟩ := (intact_of_authored authored).known n hn
  obtain ⟨n', hn', hid', hworkflow⟩ := hintact.anchored c hc id hend
  -- the row that there was and the row that there is are both like the copy that is in hand
  have hm' := (since_of_onward authored onward).kept hm
  rw [hmw, ← hworkflow]
  exact (hintact.copied.mark_eq hn' hm' (by rw [hid', ← hid, hmid])).symm

/-- An end of a connection of the graph is in its `ids` exactly if it had a row when the nodes were
read. -/
theorem end_live_iff (authored : Authored t h) (onward : Onward t h t' h')
    (hc : c ∈ (Graph.ofRows (t.listNodes workflow true)
      (t'.listConnections workflow)).connections)
    (hend : c.target = id ∨ c.source = some id) :
    id ∈ (Graph.ofRows (t.listNodes workflow true) (t'.listConnections workflow)).ids ↔
      ∃ n ∈ t.nodes, n.id = id := by
  constructor
  · intro hlive
    obtain ⟨n, hn, -, hid⟩ := Graph.mem_ids_ofRows.mp hlive
    exact ⟨n, (List.mem_filter.mp hn).1, hid⟩
  · rintro ⟨n, hn, rfl⟩
    obtain ⟨hrow, hworkflow⟩ := List.mem_filter.mp (Graph.mem_connections_ofRows.mp hc).1
    have hsame := workflow_eq_of_end authored onward hrow hend hn rfl
    refine Graph.end_live_of_row hc (List.mem_filter.mpr ⟨hn, ?_⟩) hend
    rw [hsame]
    simpa using hworkflow

/-- A connection that `touches` a tombstone, and so is left out, leads from and to nodes that were
there. -/
theorem ends_there_of_touches (authored : Authored t h) (onward : Onward t h t' h')
    (hc : c ∈ t'.connections)
    (htouch : Graph.touches (Graph.tombstones (t.listNodes workflow true)) c = true)
    (hend : c.target = id ∨ c.source = some id) : ∃ n ∈ t.nodes, n.id = id := by
  obtain ⟨n, hn, hdeleted, htomb⟩ := Graph.exists_tombstone_of_touches htouch
  have hn := (List.mem_filter.mp hn).1
  rcases (since_of_onward authored onward).apart c hc with hold | hapart
  · obtain ⟨m, hm, hid, -⟩ := (intact_of_authored authored).anchored c hold id hend
    exact ⟨m, hm, hid⟩
  · exact absurd htomb (hapart n hn hdeleted)

/-- The graph leaves out some connections that are read, but of these `ends_there_of_touches`. -/
theorem whole_ofRows_iff (authored : Authored t h) (onward : Onward t h t' h') :
    (Graph.ofRows (t.listNodes workflow true) (t'.listConnections workflow)).Whole ↔
      ∀ c ∈ t'.connections, c.workflow = workflow →
        ∀ id, c.target = id ∨ c.source = some id → ∃ n ∈ t.nodes, n.id = id := by
  constructor
  · intro whole c hc hworkflow id hend
    cases htouch : Graph.touches (Graph.tombstones (t.listNodes workflow true)) c with
    | true => exact ends_there_of_touches authored onward hc htouch hend
    | false =>
      have hlisted : c ∈ t'.listConnections workflow :=
        List.mem_filter.mpr ⟨hc, by simpa using hworkflow⟩
      have hedge := Graph.mem_connections_ofRows.mpr ⟨hlisted, htouch⟩
      exact (end_live_iff authored onward hedge hend).mp (whole c hedge id hend)
  · intro there c hedge id hend
    obtain ⟨hc, hworkflow⟩ := List.mem_filter.mp (Graph.mem_connections_ofRows.mp hedge).1
    exact (end_live_iff authored onward hedge hend).mpr
      (there c hc (by simpa using hworkflow) id hend)

/-- If nothing happens between the two readings of `Graph.load`, every connection that is read leads
from and to nodes that are there (`Intact.anchored`). -/
theorem whole_of_load {g : Graph} (authored : Authored s.tables h)
    (loaded : Graph.load workflow s = .ok g s') :
    (∃ between, between.tables = s.tables ∧ Graph.ReadAcross workflow s between g) ∧ g.Whole := by
  obtain ⟨between, same, read⟩ := Graph.readAcross_of_load loaded
  refine ⟨⟨between, same, read⟩, ?_⟩
  rw [read.eq, same]
  refine (whole_ofRows_iff authored .refl).mpr fun c hc _ id hend => ?_
  obtain ⟨n, hn, hid, -⟩ := (intact_of_authored authored).anchored c hc id hend
  exact ⟨n, hn, hid⟩

/-- Let authors work on a store while a graph `g` is read from it, its nodes in `s` and its
connections in `s'` (`Graph.ReadAcross`).

* `g.Whole` if and only if each connection in `s'` has ends that were nodes in `s`.
* A run of `g` fails with `nodeNotFound id` only if a connection that is in `s'` but was not in `s`
  leads to `id`, and `id` is a node in `s'` but was none in `s`.
* What `Graph.load` reads from `s` while nobody works on it is such a graph, and whole. -/
theorem whole_iff_of_readAcross {g : Graph} (authored : Authored s.tables h)
    (onward : Onward s.tables h s'.tables h') (read : Graph.ReadAcross workflow s s' g) :
    (g.Whole ↔ ∀ c ∈ s'.tables.connections, c.workflow = workflow →
      ∀ id, c.target = id ∨ c.source = some id → ∃ n ∈ s.tables.nodes, n.id = id) ∧
    (∀ engine r id r', Engine.walk engine g r = .error (.nodeNotFound id) r' →
      (∃ c ∈ s'.tables.connections, c.workflow = workflow ∧ c.target = id ∧
        c ∉ s.tables.connections) ∧
      s'.tables.HasNode workflow id ∧ ∀ n ∈ s.tables.nodes, n.id ≠ id) ∧
    ∀ loaded left, Graph.load workflow s = .ok loaded left →
      (∃ between, between.tables = s.tables ∧ Graph.ReadAcross workflow s between loaded) ∧
      loaded.Whole := by
  obtain rfl := read.eq
  refine ⟨whole_ofRows_iff authored onward, ?_, fun loaded left => whole_of_load authored⟩
  intro engine r id r' hwalk
  obtain ⟨c, hedge, rfl, hmissing⟩ := Engine.missing_of_walk hwalk
  obtain ⟨hc, hworkflow⟩ := List.mem_filter.mp (Graph.mem_connections_ofRows.mp hedge).1
  have hworkflow : c.workflow = workflow := by simpa using hworkflow
  -- the target is missing because it was not there when the nodes were read
  have hnone : ¬ ∃ n ∈ s.tables.nodes, n.id = c.target :=
    fun hthere => hmissing ((end_live_iff authored onward hedge (.inl rfl)).mpr hthere)
  refine ⟨⟨c, hc, hworkflow, rfl, fun hold => ?_⟩, ?_, fun n hn hid => hnone ⟨n, hn, hid⟩⟩
  · -- the ends of an old connection would have been there
    obtain ⟨n, hn, hid, -⟩ := (intact_of_authored authored).anchored c hold _ (.inl rfl)
    exact hnone ⟨n, hn, hid⟩
  · rw [← hworkflow]
    exact (intact_of_authored (onward.authored authored)).anchored c hc _ (.inl rfl)

/-- After three of `loopOperations`, which make a workflow with a node to which the trigger leads,
the author makes a second node to which the first one leads. -/
def tearingOperations : List Operation :=
  loopOperations.take 3 ++
    [.createNode loopWorkflow ⟨some "trigger", none, none, none, none⟩,
     .createConnection loopWorkflow
       ⟨some (Uuid.ofHalves 0 1), some (Uuid.ofHalves 0 2), none, none⟩]

/-- The store after the first `done` of these operations. -/
def tearingStorage (done : Nat) : Storage :=
  (tearingOperations.take done).foldl (fun s op => leftBy (op.run s))
    (.fresh (.ofNames fun _ n => Uuid.ofHalves 0 n) default)

/-- The graph, if the nodes are read after three operations and the connections after `done` of
them. -/
def tornGraph (done : Nat) : Graph :=
  Graph.ofRows ((tearingStorage 3).tables.listNodes loopWorkflow.id true)
    ((tearingStorage done).tables.listConnections loopWorkflow.id)

/-- The rows in hand after `done` of these operations. -/
def tearingHandles : Nat → Handles
  | 0 => .empty
  | done + 1 =>
    match tearingOperations[done]? with
    | none => tearingHandles done
    | some op => (tearingHandles done).and (handedOut (op.run (tearingStorage done)))

theorem authored_tearingStorage : Authored (tearingStorage 3).tables (tearingHandles 3) := by
  have made : Authored (tearingStorage 1).tables (tearingHandles 1) :=
    .step (s := tearingStorage 0) tearingOperations[0] .empty trivial
      ⟨by decide +kernel, by decide +kernel, by decide +kernel⟩
  have peopled : Authored (tearingStorage 2).tables (tearingHandles 2) :=
    .step (s := tearingStorage 1) tearingOperations[1] made (List.mem_singleton.mpr rfl)
      ⟨by decide +kernel, by decide +kernel, by decide +kernel⟩
  exact .step (s := tearingStorage 2) tearingOperations[2] peopled (List.mem_singleton.mpr rfl)
    ⟨by decide +kernel, by decide +kernel, by decide +kernel⟩

theorem onward_tearingStorage_four :
    Onward (tearingStorage 3).tables (tearingHandles 3) (tearingStorage 4).tables
      (tearingHandles 4) :=
  .step (s := tearingStorage 3) tearingOperations[3] .refl (List.mem_singleton.mpr rfl)
    ⟨by decide +kernel, by decide +kernel, by decide +kernel⟩

theorem onward_tearingStorage_five :
    Onward (tearingStorage 3).tables (tearingHandles 3) (tearingStorage 5).tables
      (tearingHandles 5) :=
  .step (s := tearingStorage 4) tearingOperations[4] onward_tearingStorage_four
    (List.mem_singleton.mpr rfl) ⟨by decide +kernel, by decide +kernel, by decide +kernel⟩

theorem readAcross_tornGraph (done : Nat) (calm : (tearingStorage done).outages = []) :
    Graph.ReadAcross loopWorkflow.id (tearingStorage 3) (tearingStorage done) (tornGraph done) :=
  .intro (Storage.listNodes_of_calm (by decide +kernel) _ _)
    (Storage.listConnections_of_calm calm _)

def startNode : Node := .new (Uuid.ofHalves 0 1) loopWorkflow.id .trigger

theorem tornGraph_eq :
    tornGraph 5 =
      { nodes := [startNode]
        connections := [.start (Uuid.ofHalves 0 1) loopWorkflow.id startNode.id,
          .between (Uuid.ofHalves 0 2) loopWorkflow.id startNode.id (Uuid.ofHalves 0 2)] } := by
  have hconnections : (tearingStorage 5).tables.listConnections loopWorkflow.id =
      [.start (Uuid.ofHalves 0 1) loopWorkflow.id startNode.id,
        .between (Uuid.ofHalves 0 2) loopWorkflow.id startNode.id (Uuid.ofHalves 0 2)] := rfl
  have hnodes : (tearingStorage 3).tables.listNodes loopWorkflow.id true = [startNode] := rfl
  rw [tornGraph, hconnections, hnodes, Graph.ofRows]
  congr 1
  refine List.mergeSort_of_pairwise ?_
  decide +kernel

def bareEngine : Engine := ⟨⟨[], []⟩, 64⟩

def tearingRun : Run :=
  ⟨.ofStorage (tearingStorage 5), .start Uuid.nil loopWorkflow.id "event.created" [] default⟩

theorem walk_tornGraph (r : Run) :
    bareEngine.walk (tornGraph 5) r = .error (.nodeNotFound (Uuid.ofHalves 0 2))
      (r.after (.nodeEntered startNode.id "trigger" 0)) := by
  have hstart : (tornGraph 5).startEdges =
      [.start (Uuid.ofHalves 0 1) loopWorkflow.id startNode.id] := by
    rw [tornGraph_eq]
    rfl
  have honward : (tornGraph 5).outgoing startNode.id =
      [.between (Uuid.ofHalves 0 2) loopWorkflow.id startNode.id (Uuid.ofHalves 0 2)] := by
    rw [tornGraph_eq]
    rfl
  have hentry : bareEngine.entry (tornGraph 5) [] startNode.id = .ok startNode := by
    rw [tornGraph_eq]
    rfl
  have hrefusal : bareEngine.entry (tornGraph 5) [startNode.id] (Uuid.ofHalves 0 2) =
      .error (.nodeNotFound (Uuid.ofHalves 0 2)) := by
    rw [tornGraph_eq]
    rfl
  -- the walk enters the one node and stops at the connection that leaves it
  have hmissing (r : Run) : bareEngine.visit (tornGraph 5) [startNode.id] (Uuid.ofHalves 0 2) r =
      .error (.nodeNotFound (Uuid.ofHalves 0 2)) r := by
    rw [Engine.visit_apply, hrefusal]
  have hbelow (r : Run) :
      bareEngine.follow (tornGraph 5) [startNode.id] startNode.id none
        ((tornGraph 5).outgoing startNode.id) r =
      .error (.nodeNotFound (Uuid.ofHalves 0 2)) r := by
    rw [honward]
    exact Engine.follow_of_visit_error (hmissing r)
  have hvisit : bareEngine.visit (tornGraph 5) [] startNode.id r =
      .error (.nodeNotFound (Uuid.ofHalves 0 2))
        (r.after (.nodeEntered startNode.id "trigger" 0)) := by
    rw [Engine.visit_apply, hentry]
    dsimp only
    rw [bind_of_ok (Engine.act_of_trigger bareEngine (n := startNode) rfl _).1]
    exact hbelow _
  rw [Engine.walk_eq, hstart, if_neg (List.cons_ne_nil _ _)]
  exact Engine.follow_of_visit_error hvisit

/-- A second node that is not connected yet leaves the graph whole: `tornGraph 4`.  The node that
`tornGraph 5` lacks was made after the nodes had been read. -/
theorem tornGraph_whole :
    (tornGraph 4).Whole ∧
      (tearingStorage 5).tables.HasNode loopWorkflow.id (Uuid.ofHalves 0 2) ∧
      ∀ n ∈ (tearingStorage 3).tables.nodes, n.id ≠ Uuid.ofHalves 0 2 := by
  obtain ⟨hfour, -⟩ := whole_iff_of_readAcross authored_tearingStorage onward_tearingStorage_four
    (readAcross_tornGraph 4 (by decide +kernel))
  obtain ⟨-, hmissing, -⟩ := whole_iff_of_readAcross authored_tearingStorage
    onward_tearingStorage_five (readAcross_tornGraph 5 (by decide +kernel))
  obtain ⟨-, hmade⟩ := hmissing bareEngine tearingRun _ _ (walk_tornGraph tearingRun)
  refine ⟨hfour.mpr fun c hc _ id hend => ⟨startNode, .head _, ?_⟩, hmade⟩
  have hends : ∀ c ∈ (tearingStorage 4).tables.connections,
      c.target = startNode.id ∧ c.source = none := by decide +kernel
  obtain ⟨htarget, hsource⟩ := hends c hc
  rcases hend with rfl | hid
  · exact htarget.symm
  · rw [hsource] at hid
    cases hid

/-- Authors who only add to a sound workflow can tear a graph that is read meanwhile: `tornGraph 5`
is not `Whole`, and a run of it fails with `nodeNotFound`. -/
theorem tornGraph_dangles :
    Authored (tearingStorage 3).tables (tearingHandles 3) ∧
      Onward (tearingStorage 3).tables (tearingHandles 3) (tearingStorage 5).tables
        (tearingHandles 5) ∧
      Graph.ReadAcross loopWorkflow.id (tearingStorage 3) (tearingStorage 5) (tornGraph 5) ∧
      (∃ c ∈ (tornGraph 5).connections, c.target ∉ (tornGraph 5).ids) ∧
      ∃ r, bareEngine.walk (tornGraph 5) tearingRun =
        .error (.nodeNotFound (Uuid.ofHalves 0 2)) r := by
  refine ⟨authored_tearingStorage, onward_tearingStorage_five,
    readAcross_tornGraph 5 (by decide +kernel), ?_, _, walk_tornGraph tearingRun⟩
  rw [tornGraph_eq]
  exact ⟨_, .tail _ (.head _), by decide⟩

end Authoring

end TriggerFlow
