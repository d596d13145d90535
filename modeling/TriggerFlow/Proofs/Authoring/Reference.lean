import TriggerFlow.Proofs.Authoring.Integrity
/-!
# Every reference is to a row

In `Authored` tables each node and each connection belongs to a workflow that has a row, and the
ends of a connection are rows of nodes of that workflow (`references_hold`).  That the ends are
there is `Intact`; that the workflows are there is `Owned`.

A graph therefore has no connection with an end outside of it: a connection that touches a
tombstone is left out of the graph, and what is not a tombstone is live.
-/

namespace TriggerFlow

def Tables.HasWorkflow (t : Tables) (id : WorkflowId) : Prop := ∃ w ∈ t.workflows, w.id = id

def Tables.HasNode (t : Tables) (workflow : WorkflowId) (id : NodeId) : Prop :=
  ∃ n ∈ t.nodes, n.id = id ∧ n.workflow = workflow

namespace Authoring

/-- The workflow of every node and of every connection `HasWorkflow`. -/
structure Owned (t : Tables) : Prop where
  nodes : ∀ n ∈ t.nodes, t.HasWorkflow n.workflow
  connections : ∀ c ∈ t.connections, t.HasWorkflow c.workflow

variable {s : Storage} {t t' : Tables} {h given : Handles}

theorem owned_empty : Owned Tables.empty := by
  refine ⟨?_, ?_⟩
  · intro n hn
    simp [Tables.empty] at hn
  · intro c hc
    simp [Tables.empty] at hc

/-! ### Workflows stay -/

/-- Removing nodes and connections keeps `Owned`, if no workflow loses its last row. -/
theorem Owned.mono (ho : Owned t) (hworkflows : ∀ id, t.HasWorkflow id → t'.HasWorkflow id)
    (hnodes : t'.nodes ⊆ t.nodes) (hconnections : t'.connections ⊆ t.connections) : Owned t' :=
  ⟨fun n hn => hworkflows _ (ho.nodes n (hnodes hn)),
    fun c hc => hworkflows _ (ho.connections c (hconnections hc))⟩

/-- Putting a row in the place of the workflow with its identifier keeps `Owned`. -/
theorem Owned.replaceWorkflow (ho : Owned t) {id : WorkflowId} {row : Workflow}
    (hid : row.id = id) :
    Owned { t with
      workflows := Tables.replaceFirst (fun w => w.id == id) row t.workflows } := by
  refine ho.mono ?_ (List.Subset.refl _) (List.Subset.refl _)
  intro id' h
  refine Tables.exists_replaceFirst ?_ h
  rintro w - hp rfl
  have hp : w.id = id := by simpa using hp
  rw [hid, hp]

/-- Putting a node of a workflow that has a row in the place of another keeps `Owned`. -/
theorem Owned.replaceNode (ho : Owned t) {id : NodeId} {row : Node}
    (hrow : t.HasWorkflow row.workflow) :
    Owned { t with nodes := Tables.replaceFirst (fun n => n.id == id) row t.nodes } := by
  refine ⟨?_, ho.connections⟩
  intro n hn
  rcases Tables.mem_replaceFirst hn with rfl | hn
  · exact hrow
  · exact ho.nodes n hn

/-- Removing a workflow with its nodes and connections keeps `Owned`. -/
theorem Owned.removeWorkflow (ho : Owned t) (id : WorkflowId) :
    Owned { t with
      workflows := t.workflows.filter fun w => w.id != id
      nodes := t.nodes.filter fun n => n.workflow != id
      connections := t.connections.filter fun c => c.workflow != id } := by
  have hstays (id' : WorkflowId) (hne : (id' != id) = true) (h : t.HasWorkflow id') :
      ∃ w ∈ t.workflows.filter (fun w => w.id != id), w.id = id' := by
    obtain ⟨w, hw, rfl⟩ := h
    exact ⟨w, List.mem_filter.mpr ⟨hw, hne⟩, rfl⟩
  refine ⟨?_, ?_⟩
  · intro n hn
    obtain ⟨hn, hne⟩ := List.mem_filter.mp hn
    exact hstays _ hne (ho.nodes n hn)
  · intro c hc
    obtain ⟨hc, hne⟩ := List.mem_filter.mp hc
    exact hstays _ hne (ho.connections c hc)

/-! ### One operation, and all of them -/

theorem owned_of_does {op : Operation} (hi : Intact s.tables h) (ho : Owned s.tables)
    (held : op.Held h) (does : Does s op given t) : Owned t := by
  cases does with
  | look => exact ho
  | create =>
    refine ho.mono ?_ (List.Subset.refl _) (List.Subset.refl _)
    rintro id ⟨w, hw, hid⟩
    exact ⟨w, List.mem_append_left _ hw, hid⟩
  | update found id_eq => exact ho.replaceWorkflow id_eq
  | delete found row_eq =>
    apply ho.replaceWorkflow
    rw [row_eq]
    simpa using List.find?_some found
  | hardDelete => exact ho.removeWorkflow _
  | createNode id_eq member live owner =>
    refine ⟨?_, ho.connections⟩
    intro n hn
    rcases List.mem_append.mp hn with hn | hn
    · exact ho.nodes n hn
    · rw [List.mem_singleton.mp hn, member]
      exact owner
  | @updateNode node data row stored found id_eq member =>
    -- the row in hand may be stale, but it names the workflow of the stored row
    obtain ⟨hstored, hid, -⟩ := Tables.getNode_eq_some found
    apply ho.replaceNode
    rw [member, ← hi.copied.mark_eq hstored held hid]
    exact ho.nodes stored hstored
  | deleteNode found row_eq =>
    obtain ⟨hstored, -⟩ := Tables.getNode_eq_some found
    have hworkflow := ho.nodes _ hstored
    apply ho.replaceNode
    rwa [row_eq]
  | hardDeleteNode =>
    exact ho.mono (fun _ h => h) List.filter_sublist.subset List.filter_sublist.subset
  | createConnection id_eq member ends owner =>
    refine ⟨ho.nodes, ?_⟩
    intro c hc
    rcases List.mem_append.mp hc with hc | hc
    · exact ho.connections c hc
    · rw [List.mem_singleton.mp hc, member]
      exact owner
  | deleteConnection =>
    exact ho.mono (fun _ h => h) (List.Subset.refl _) List.filter_sublist.subset

/-- Whatever authors do, `Authored` tables are `Owned`. -/
theorem owned_of_authored (authored : Authored t h) : Owned t :=
  Authored.holds (P := fun t _ => Owned t) authored owned_empty
    (fun _ _ _ ho => ⟨ho.nodes, ho.connections⟩)
    fun _ _ _ _ _ authored ho held _ hrun =>
      owned_of_does (intact_of_authored authored) ho held (does_of_run hrun)

/-- In `Authored` tables, which include every state after accepted operations with stale copies in
hand, the workflow of each node and connection has a row, the ends of a connection are nodes of its
workflow, and in a graph that is loaded they are live. -/
theorem references_hold (authored : Authored t h) :
    (∀ n ∈ t.nodes, t.HasWorkflow n.workflow) ∧
    (∀ c ∈ t.connections, t.HasWorkflow c.workflow ∧ t.HasNode c.workflow c.target ∧
      ∀ id, c.source = some id → t.HasNode c.workflow id) ∧
    ∀ workflow s g s', s.tables = t → Graph.load workflow s = .ok g s' →
      ∀ c ∈ g.connections, c.target ∈ g.ids ∧ ∀ id, c.source = some id → id ∈ g.ids := by
  have hi := intact_of_authored authored
  have ho := owned_of_authored authored
  refine ⟨ho.nodes, ?_, ?_⟩
  · intro c hc
    exact ⟨ho.connections c hc, hi.anchored c hc _ (.inl rfl),
      fun id hid => hi.anchored c hc id (.inr hid)⟩
  · rintro workflow s g s' rfl hload c hc
    rw [Graph.load_eq_ok hload] at hc ⊢
    exact ⟨hi.end_live hc (.inl rfl), fun id hid => hi.end_live hc (.inr hid)⟩

def loopWorkflow : Workflow :=
  .new (Uuid.ofHalves 0 1) Uuid.nil Uuid.nil "loop" .eventCreated default

/-- An author makes `loopWorkflow` in an empty store, then a node, and connects it with the trigger
and with itself. -/
def loopOperations : List Operation :=
  [.create ⟨some "loop", none, some "event.created", none, none⟩ Uuid.nil Uuid.nil,
   .createNode loopWorkflow ⟨some "trigger", none, none, none, none⟩,
   .createConnection loopWorkflow ⟨none, some (Uuid.ofHalves 0 1), none, none⟩,
   .createConnection loopWorkflow
     ⟨some (Uuid.ofHalves 0 1), some (Uuid.ofHalves 0 1), none, none⟩]

/-- The store after the first `done` of these operations. -/
def loopStorage (done : Nat) : Storage :=
  (loopOperations.take done).foldl (fun s op => leftBy (op.run s))
    (.fresh (.ofNames fun _ n => Uuid.ofHalves 0 n) default)

/-- After all four operations, both connections are in the graph that `Graph.load` gives, between
nodes that are in it too. -/
theorem loopStorage_references_hold :
    (loopStorage 4).tables.connections.length = 2 ∧
    (∀ c ∈ (loopStorage 4).tables.connections, (loopStorage 4).tables.HasWorkflow c.workflow ∧
      (loopStorage 4).tables.HasNode c.workflow c.target) ∧
    ∃ g, Graph.load loopWorkflow.id (loopStorage 4) = .ok g (loopStorage 4) ∧
      ∀ c ∈ g.connections, c.target ∈ g.ids ∧ ∀ id, c.source = some id → id ∈ g.ids := by
  have made : Authored (loopStorage 1).tables _ :=
    .step (s := loopStorage 0) loopOperations[0] .empty trivial
      ⟨by decide +kernel, by decide +kernel, by decide +kernel⟩
  have peopled : Authored (loopStorage 2).tables _ :=
    .step (s := loopStorage 1) loopOperations[1] made (List.mem_singleton.mpr rfl)
      ⟨by decide +kernel, by decide +kernel, by decide +kernel⟩
  have started : Authored (loopStorage 3).tables _ :=
    .step (s := loopStorage 2) loopOperations[2] peopled (List.mem_singleton.mpr rfl)
      ⟨by decide +kernel, by decide +kernel, by decide +kernel⟩
  have closed : Authored (loopStorage 4).tables _ :=
    .step (s := loopStorage 3) loopOperations[3] started (List.mem_singleton.mpr rfl)
      ⟨by decide +kernel, by decide +kernel, by decide +kernel⟩
  obtain ⟨-, hconnections, hgraph⟩ := references_hold closed
  have calm : (loopStorage 4).outages = [] := by decide +kernel
  have hload := Graph.load_of_calm calm loopWorkflow.id
  exact ⟨by decide +kernel, fun c hc => ⟨(hconnections c hc).1, (hconnections c hc).2.1⟩, _, hload,
    hgraph _ _ _ _ rfl hload⟩

end Authoring

end TriggerFlow
