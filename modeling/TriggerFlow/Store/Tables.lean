import TriggerFlow.Execution
/-!
# Tables

`Tables` holds the rows of workflows, nodes, connections and executions in the order of their
insertion.  Every operation is a function on tables: it answers with the tables after it, or with an
error and no tables at all (`Tables.Outcome`), so that a refused operation changes nothing.

A row is found by its identifier, and where two rows share one, the first is meant
(`replaceFirst`).  Deletions that remove rows remove all rows they name.
-/

namespace TriggerFlow

/-- Why the store refuses an operation; `StoreError.message` is how it is told. -/
inductive StoreError where
  | notFound (noun : String) (id : String)
  | conflict (reason : String)
  | backend (reason : String)
deriving DecidableEq

namespace StoreError

def message : StoreError → String
  | notFound noun id => noun ++ " not found: " ++ id
  | conflict reason => "Conflict: " ++ reason
  | backend reason => "Storage backend error: " ++ reason

end StoreError

/-- The rows of a store, each table in the order of insertion. -/
structure Tables where
  workflows : List Workflow
  nodes : List Node
  connections : List Connection
  executions : List Execution

namespace Tables

def empty : Tables := ⟨[], [], [], []⟩

/-! ### Rows -/

/-- The first row that satisfies `p` gives way to `row` in its place; without one nothing changes.
-/
def replaceFirst {α : Type} (p : α → Bool) (row : α) : List α → List α
  | [] => []
  | a :: as => if p a then row :: as else a :: replaceFirst p row as

/-- The outcome of an operation: an answer and the tables after it, or a `StoreError`. -/
abbrev Outcome (α : Type) := Except StoreError (α × Tables)

/-! ### Workflows -/

/-- Adds a workflow; a `conflict` if some row has its `id`, be it a tombstone. -/
def insertWorkflow (t : Tables) (row : Workflow) : Outcome Workflow :=
  if t.workflows.any fun w => w.id == row.id then
    .error (.conflict ("workflow " ++ row.id.text ++ " exists"))
  else .ok (row, { t with workflows := t.workflows ++ [row] })

/-- The first workflow with the identifier `id`, a tombstone only if `withDeleted`. -/
def getWorkflow (t : Tables) (id : WorkflowId) (withDeleted : Bool) : Option Workflow :=
  t.workflows.find? fun w => w.id == id && (withDeleted || !w.deleted)

/-- Overwrites a workflow with `row`, except for `deleted`, which stays as it is stored; `updated`
becomes `now`. -/
def updateWorkflow (t : Tables) (row : Workflow) (now : Timestamp) : Outcome Workflow :=
  match t.getWorkflow row.id true with
  | none => .error (.notFound "Workflow" row.id.text)
  | some stored =>
    let row := { row with updated := now, deleted := stored.deleted }
    .ok (row, { t with workflows := replaceFirst (fun w => w.id == row.id) row t.workflows })

/-- The workflows of an organization, tombstones only if `withDeleted`. -/
def listWorkflows (t : Tables) (organization : OrganizationId) (withDeleted : Bool) :
    List Workflow :=
  t.workflows.filter fun w => w.organization == organization && (withDeleted || !w.deleted)

/-- The workflows of an organization that react to a trigger (`Workflow.reactsTo`). -/
def findActive (t : Tables) (organization : OrganizationId) (triggerType : TriggerType) :
    List Workflow :=
  (t.listWorkflows organization false).filter fun w => w.reactsTo triggerType

/-- Turns a workflow into a tombstone: its stored row with `deleted := true`, changed `now`. -/
def softDeleteWorkflow (t : Tables) (id : WorkflowId) (now : Timestamp) : Outcome Unit :=
  match t.getWorkflow id true with
  | none => .error (.notFound "Workflow" id.text)
  | some stored =>
    let row := { stored with deleted := true, updated := now }
    .ok ((), { t with workflows := replaceFirst (fun w => w.id == id) row t.workflows })

/-- Removes a workflow with its nodes and connections; `executions` stays as it is. -/
def hardDeleteWorkflow (t : Tables) (id : WorkflowId) : Outcome Unit :=
  if t.workflows.any fun w => w.id == id then
    .ok ((), { t with
      workflows := t.workflows.filter fun w => w.id != id
      nodes := t.nodes.filter fun n => n.workflow != id
      connections := t.connections.filter fun c => c.workflow != id })
  else .error (.notFound "Workflow" id.text)

/-! ### Nodes -/

/-- Adds a node if its workflow has a row, be it a tombstone.  Whether some node has its `id` is not
asked. -/
def insertNode (t : Tables) (row : Node) : Outcome Node :=
  if t.workflows.any fun w => w.id == row.workflow then
    .ok (row, { t with nodes := t.nodes ++ [row] })
  else .error (.notFound "Workflow" row.workflow.text)

/-- The first node with the identifier `id`, a tombstone only if `withDeleted`. -/
def getNode (t : Tables) (id : NodeId) (withDeleted : Bool) : Option Node :=
  t.nodes.find? fun n => n.id == id && (withDeleted || !n.deleted)

/-- Overwrites a node with `row`, except for `deleted`, which stays as it is stored. -/
def updateNode (t : Tables) (row : Node) : Outcome Node :=
  match t.getNode row.id true with
  | none => .error (.notFound "Node" row.id.text)
  | some stored =>
    let row := { row with deleted := stored.deleted }
    .ok (row, { t with nodes := replaceFirst (fun n => n.id == row.id) row t.nodes })

/-- The nodes of a workflow, tombstones only if `withDeleted`. -/
def listNodes (t : Tables) (workflow : WorkflowId) (withDeleted : Bool) : List Node :=
  t.nodes.filter fun n => n.workflow == workflow && (withDeleted || !n.deleted)

/-- Turns a node into a tombstone: its stored row with `deleted := true`.  Connections stay. -/
def softDeleteNode (t : Tables) (id : NodeId) : Outcome Unit :=
  match t.getNode id true with
  | none => .error (.notFound "Node" id.text)
  | some stored =>
    let row := { stored with deleted := true }
    .ok ((), { t with nodes := replaceFirst (fun n => n.id == id) row t.nodes })

/-- Removes a node, and every connection whose `target` or `source` it is. -/
def hardDeleteNode (t : Tables) (id : NodeId) : Outcome Unit :=
  if t.nodes.any fun n => n.id == id then
    .ok ((), { t with
      nodes := t.nodes.filter fun n => n.id != id
      connections := t.connections.filter fun c => c.target != id && c.source != some id })
  else .error (.notFound "Node" id.text)

/-! ### Connections -/

/-- Adds a connection if its workflow has a row.  Neither its `id` nor its ends are asked for. -/
def insertConnection (t : Tables) (row : Connection) : Outcome Connection :=
  if t.workflows.any fun w => w.id == row.workflow then
    .ok (row, { t with connections := t.connections ++ [row] })
  else .error (.notFound "Workflow" row.workflow.text)

/-- The connections of a workflow, in the order of insertion. -/
def listConnections (t : Tables) (workflow : WorkflowId) : List Connection :=
  t.connections.filter fun c => c.workflow == workflow

/-- Removes every connection with the identifier `id`; `notFound` if there is none. -/
def deleteConnection (t : Tables) (id : ConnectionId) : Outcome Unit :=
  if t.connections.any fun c => c.id == id then
    .ok ((), { t with connections := t.connections.filter fun c => c.id != id })
  else .error (.notFound "Connection" id.text)

/-! ### Executions -/

/-- Adds an execution at the end; this is never refused. -/
def insertExecution (t : Tables) (row : Execution) : Outcome Execution :=
  .ok (row, { t with executions := t.executions ++ [row] })

/-- The first execution with the identifier `id`. -/
def getExecution (t : Tables) (id : ExecutionId) : Option Execution :=
  t.executions.find? fun e => e.id == id

/-- The executions of a workflow, in the order of insertion. -/
def listExecutions (t : Tables) (workflow : WorkflowId) : List Execution :=
  t.executions.filter fun e => e.workflow == workflow

/-- Overwrites `context`, `status`, `error` and `completedAt` of a stored execution with those of
`row`; a `conflict` if the stored status `isTerminal`. -/
def updateExecution (t : Tables) (row : Execution) : Outcome Unit :=
  match t.getExecution row.id with
  | none => .error (.notFound "Execution" row.id.text)
  | some stored =>
    if stored.status.isTerminal then
      .error (.conflict ("execution " ++ row.id.text ++ " is already "
        ++ Vocabulary.text stored.status))
    else
      let row := { stored with
        context := row.context, status := row.status, error := row.error,
        completedAt := row.completedAt }
      .ok ((), { t with executions := replaceFirst (fun e => e.id == row.id) row t.executions })

end Tables

end TriggerFlow
