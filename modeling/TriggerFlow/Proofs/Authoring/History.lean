import TriggerFlow.Authoring
import TriggerFlow.Proofs.Store.Access
/-!
# Histories of authoring

Authors work on a store one `Operation` after the other, with the rows that earlier operations have
handed them (`Handles`), which may be stale by now.  Tables that come about in this way from the
empty ones, each new row under an identifier of its own, are `Authored`.  What one operation that
succeeds does to the tables is said once, by `Does`.
-/

namespace TriggerFlow.Authoring

structure Handles where
  workflows : List Workflow
  nodes : List Node
  connections : List Connection

namespace Handles

def empty : Handles := ⟨[], [], []⟩

def ofWorkflows (workflows : List Workflow) : Handles := ⟨workflows, [], []⟩

def ofNodes (nodes : List Node) : Handles := ⟨[], nodes, []⟩

def ofConnections (connections : List Connection) : Handles := ⟨[], [], connections⟩

def and (h h' : Handles) : Handles :=
  ⟨h.workflows ++ h'.workflows, h.nodes ++ h'.nodes, h.connections ++ h'.connections⟩

/-- All rows in hand are rows of the tables `t`. -/
structure Within (h : Handles) (t : Tables) : Prop where
  workflows : h.workflows ⊆ t.workflows
  nodes : h.nodes ⊆ t.nodes
  connections : h.connections ⊆ t.connections

structure Fresh (h : Handles) (s : Storage) : Prop where
  workflow : ∀ w ∈ h.workflows, w.id ≠ (s.ids.next .workflow).1
  node : ∀ n ∈ h.nodes, n.id ≠ (s.ids.next .node).1
  connection : ∀ c ∈ h.connections, c.id ≠ (s.ids.next .connection).1

end Handles

/-- What authors can do, with the rows that they do it with. -/
inductive Operation where
  | create (data : WorkflowInput) (organization : OrganizationId) (user : UserId)
  | update (workflow : Workflow) (data : WorkflowInput)
  | get (id : WorkflowId)
  | list (organization : OrganizationId)
  | delete (workflow : Workflow)
  | hardDelete (workflow : Workflow)
  | createNode (workflow : Workflow) (data : NodeInput)
  | updateNode (node : Node) (data : NodeInput)
  | getNode (id : NodeId)
  | listNodes (workflow : Workflow)
  | deleteNode (node : Node)
  | hardDeleteNode (node : Node)
  | createConnection (workflow : Workflow) (data : ConnectionInput)
  | listConnections (workflow : Workflow)
  | deleteConnection (id : ConnectionId)
  | validateGraph (catalogue : Catalogue) (workflow : Workflow)

namespace Operation

/-- Runs the operation of `Authoring`, and hands out the rows that it answers with. -/
def run : Operation → Work Handles
  | create data organization user => do
    return .ofWorkflows [← Authoring.create data organization user]
  | update workflow data => do return .ofWorkflows [← Authoring.update workflow data]
  | get id => do return .ofWorkflows [← Authoring.get id]
  | list organization => do return .ofWorkflows (← Authoring.list organization)
  | delete workflow => do
    Authoring.delete workflow
    return .empty
  | hardDelete workflow => do
    Authoring.hardDelete workflow
    return .empty
  | createNode workflow data => do return .ofNodes [← Authoring.createNode workflow data]
  | updateNode node data => do return .ofNodes [← Authoring.updateNode node data]
  | getNode id => do return .ofNodes [← Authoring.getNode id]
  | listNodes workflow => do return .ofNodes (← Authoring.listNodes workflow)
  | deleteNode node => do
    Authoring.deleteNode node
    return .empty
  | hardDeleteNode node => do
    Authoring.hardDeleteNode node
    return .empty
  | createConnection workflow data => do
    return .ofConnections [← Authoring.createConnection workflow data]
  | listConnections workflow => do
    return .ofConnections (← Authoring.listConnections workflow)
  | deleteConnection id => do
    Authoring.deleteConnection id
    return .empty
  | validateGraph catalogue workflow => do
    let _ ← Authoring.validateGraph catalogue workflow
    return .empty

/-- The rows that the operation is given are in hand; those that take an identifier or nothing are
always `Held`. -/
def Held (h : Handles) : Operation → Prop
  | create .. | get _ | list _ | getNode _ | deleteConnection _ => True
  | update workflow _ | delete workflow | hardDelete workflow | createNode workflow _
  | listNodes workflow | createConnection workflow _ | listConnections workflow
  | validateGraph _ workflow => workflow ∈ h.workflows
  | updateNode node _ | deleteNode node | hardDeleteNode node => node ∈ h.nodes

/-- The operation reads, and changes nothing. -/
def IsLook : Operation → Prop
  | get _ | list _ | getNode _ | listNodes _ | listConnections _ | validateGraph .. => True
  | _ => False

end Operation

def handedOut : EStateM.Result AuthoringError Storage Handles → Handles
  | .ok given _ => given
  | .error _ _ => .empty

/-- Tables that authors can bring about by operations whose rows are `Held` and whose identifiers
are `Fresh`, and the rows that they then have in hand.  Between operations the clock, the supply of
identifiers and the outages may become whatever they will, and runs may write their executions. -/
inductive Authored : Tables → Handles → Prop
  | empty : Authored Tables.empty Handles.empty
  | runs {t : Tables} {h : Handles} (executions : List Execution) (authored : Authored t h) :
      Authored { t with executions } h
  | step {s : Storage} {h : Handles} (op : Operation) (authored : Authored s.tables h)
      (held : op.Held h) (fresh : h.Fresh s) :
      Authored (leftBy (op.run s)).tables (h.and (handedOut (op.run s)))

/-! ### Several operations -/

/-- The store after the operations `ops`, one after the other; a refusal leaves its store. -/
def after (s : Storage) (ops : List Operation) : Storage :=
  ops.foldl (fun s op => leftBy (op.run s)) s

/-- The rows in hand after some operations: `h`, and what each operation has handed out. -/
def inHand (s : Storage) (h : Handles) : List Operation → Handles
  | [] => h
  | op :: ops => inHand (leftBy (op.run s)) (h.and (handedOut (op.run s))) ops

/-- Each of some operations is given rows that are in hand by then, and finds identifiers that are
`Fresh`. -/
def Legal (s : Storage) (h : Handles) : List Operation → Prop
  | [] => True
  | op :: ops => op.Held h ∧ h.Fresh s ∧
      Legal (leftBy (op.run s)) (h.and (handedOut (op.run s))) ops

/-- `Legal` operations lead from `Authored` tables to `Authored` tables. -/
theorem Authored.after {s : Storage} {h : Handles} {ops : List Operation}
    (authored : Authored s.tables h) (legal : Legal s h ops) :
    Authored (after s ops).tables (inHand s h ops) := by
  induction ops generalizing s h with
  | nil => exact authored
  | cons op ops ih =>
    obtain ⟨held, fresh, legal⟩ := legal
    exact ih (.step op authored held fresh) legal

/-! ### What an operation does -/

/-- What becomes of the tables, and which rows are handed out, when the operation succeeds on the
store `s`. -/
inductive Does (s : Storage) : Operation → Handles → Tables → Prop
  /-- An operation that `IsLook` hands out rows as they are. -/
  | look {op given} (looking : Operation.IsLook op) (within : given.Within s.tables) :
      Does s op given s.tables
  | create {data organization user row} (id_eq : row.id = (s.ids.next .workflow).1)
      (new : ∀ w ∈ s.tables.workflows, w.id ≠ row.id) :
      Does s (.create data organization user) (.ofWorkflows [row])
        { s.tables with workflows := s.tables.workflows ++ [row] }
  | update {workflow data row stored} (found : s.tables.getWorkflow workflow.id true = some stored)
      (id_eq : row.id = workflow.id) (mark : row.deleted = stored.deleted) :
      Does s (.update workflow data) (.ofWorkflows [row])
        { s.tables with
          workflows := Tables.replaceFirst (fun w => w.id == workflow.id) row s.tables.workflows }
  | delete {workflow row stored} (found : s.tables.getWorkflow workflow.id true = some stored)
      (row_eq : row = { stored with deleted := true, updated := s.clock }) :
      Does s (.delete workflow) .empty
        { s.tables with
          workflows := Tables.replaceFirst (fun w => w.id == workflow.id) row s.tables.workflows }
  | hardDelete {workflow} :
      Does s (.hardDelete workflow) .empty
        { s.tables with
          workflows := s.tables.workflows.filter fun w => w.id != workflow.id
          nodes := s.tables.nodes.filter fun n => n.workflow != workflow.id
          connections := s.tables.connections.filter fun c => c.workflow != workflow.id }
  | createNode {workflow data row} (id_eq : row.id = (s.ids.next .node).1)
      (member : row.workflow = workflow.id) (live : row.deleted = false)
      (owner : ∃ w ∈ s.tables.workflows, w.id = workflow.id) :
      Does s (.createNode workflow data) (.ofNodes [row])
        { s.tables with nodes := s.tables.nodes ++ [row] }
  | updateNode {node data row stored} (found : s.tables.getNode node.id true = some stored)
      (id_eq : row.id = node.id) (member : row.workflow = node.workflow)
      (mark : row.deleted = stored.deleted) :
      Does s (.updateNode node data) (.ofNodes [row])
        { s.tables with
          nodes := Tables.replaceFirst (fun n => n.id == node.id) row s.tables.nodes }
  | deleteNode {node row stored} (found : s.tables.getNode node.id true = some stored)
      (row_eq : row = { stored with deleted := true }) :
      Does s (.deleteNode node) .empty
        { s.tables with
          nodes := Tables.replaceFirst (fun n => n.id == node.id) row s.tables.nodes }
  | hardDeleteNode {node} :
      Does s (.hardDeleteNode node) .empty
        { s.tables with
          nodes := s.tables.nodes.filter fun n => n.id != node.id
          connections := s.tables.connections.filter fun c =>
            c.target != node.id && c.source != some node.id }
  | createConnection {workflow data row} (id_eq : row.id = (s.ids.next .connection).1)
      (member : row.workflow = workflow.id)
      (ends : ∀ id, row.target = id ∨ row.source = some id →
        ∃ n, s.tables.getNode id false = some n ∧ n.workflow = workflow.id)
      (owner : ∃ w ∈ s.tables.workflows, w.id = workflow.id) :
      Does s (.createConnection workflow data) (.ofConnections [row])
        { s.tables with connections := s.tables.connections ++ [row] }
  | deleteConnection {id} :
      Does s (.deleteConnection id) .empty
        { s.tables with connections := s.tables.connections.filter fun c => c.id != id }

end TriggerFlow.Authoring
