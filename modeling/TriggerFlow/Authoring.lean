import TriggerFlow.Authoring.Rule
import TriggerFlow.Inspection
import TriggerFlow.Workflow.Codec
/-!
# Authoring workflows

Authors create, change and delete workflows, nodes and connections.  What they enter is a patch, all
of whose fields may be absent; it is checked by rules (`EnteredField.check`) before the store is
touched.  A change starts from the row that the author holds, and fields absent from the patch keep
the value they have there (`Authoring.update`, `Authoring.updateNode`).

Every operation is a `Work`, which is refused with an `AuthoringError`.
-/

namespace TriggerFlow

/-! ### What is entered -/

/-- A patch of a workflow; `workflowFields` and `workflowPatchFields` are the rules for it. -/
structure WorkflowInput where
  name : Option String
  description : Option String
  triggerType : Option String
  triggerConfig : Option Config
  status : Option String

namespace WorkflowInput

open Record in
def reader : Reader WorkflowInput := do
  let name ← optional "name" Json.asString?
  let description ← optional "description" Json.asString?
  let triggerType ← optional "trigger_type" Json.asString?
  let triggerConfig ← optional "trigger_config" Json.asObject?
  let status ← optional "status" Json.asString?
  return { name, description, triggerType, triggerConfig, status }

def ofJson? (v : Json) : Option WorkflowInput := Record.read reader v

end WorkflowInput

/-- A patch of a node; `nodeFields` and `nodePatchFields` are the rules for it. -/
structure NodeInput where
  nodeType : Option String
  actionType : Option String
  name : Option String
  config : Option Config
  position : Option Position

namespace NodeInput

open Record in
def reader : Reader NodeInput := do
  let nodeType ← optional "node_type" Json.asString?
  let actionType ← optional "action_type" Json.asString?
  let name ← optional "name" Json.asString?
  let config ← optional "config" Json.asObject?
  let position ← optional "position" Position.ofJson?
  return { nodeType, actionType, name, config, position }

def ofJson? (v : Json) : Option NodeInput := Record.read reader v

end NodeInput

/-- What is entered for a connection; `connectionFields` are the rules for it. -/
structure ConnectionInput where
  source : Option NodeId
  target : Option NodeId
  conditionType : Option String
  priority : Option Int32

namespace ConnectionInput

open Record in
def reader : Reader ConnectionInput := do
  let source ← optional "from_node" Uuid.ofJson?
  let target ← optional "to_node" Uuid.ofJson?
  let conditionType ← optional "condition_type" Json.asString?
  let priority ← optional "priority" priorityOfJson?
  return { source, target, conditionType, priority }

def ofJson? (v : Json) : Option ConnectionInput := Record.read reader v

end ConnectionInput

namespace Authoring

/-- Work of an author, which may be refused with an `AuthoringError`. -/
abbrev Work (α : Type) := EStateM AuthoringError Storage α

/-- Uses the store; its refusal `e` is the refusal `.store e`. -/
def access {α : Type} (a : Access α) : Work α := fun s =>
  match a s with
  | .ok v s => .ok v s
  | .error e s => .error (.store e) s

/-- Goes on only if `EnteredField.check` has nothing to say of the fields. -/
def check (fields : List EnteredField) : Work Unit :=
  match EnteredField.check fields with
  | .ok () => return ()
  | .error e => throw e

/-- The member of a vocabulary that the word `s` stands for, and else a refusal with
`UnknownWord.message`. -/
def parse {α : Type} [Vocabulary α] (s : String) : Work α :=
  match Vocabulary.parse s with
  | .ok a => return a
  | .error (u : UnknownWord) => throw (.validation [u.message])

/-- What `parse` makes of a text, if there is one. -/
def parseOptional {α : Type} [Vocabulary α] : Option String → Work (Option α)
  | some s => some <$> parse s
  | none => return none

/-- What `parse` makes of a text, if there is one, and else the value `otherwise`. -/
def parseOr {α : Type} [Vocabulary α] (text : Option String) (otherwise : α) : Work α := do
  return (← parseOptional text).getD otherwise

/-! ### Rules -/

/-- The texts that may be entered for a `trigger_type`. -/
def triggerTypes : List String :=
  ["booking.created", "booking.confirmed", "booking.cancelled", "booking.reminder",
   "event.created", "event.updated", "event.deleted"]

/-- The texts that may be entered for the `status` of a workflow. -/
def statuses : List String := ["active", "inactive", "draft"]

/-- The texts that may be entered for a `node_type`. -/
def nodeTypes : List String := ["trigger", "action", "condition"]

/-- The texts that may be entered for the `condition_type` of a connection. -/
def conditionTypes : List String := ["true", "false"]

/-- The rule for the `name` of a workflow: 2 to 255 characters. -/
def nameLength : Rule := .length 2 255

/-! ### Workflows -/

/-- The rules for a new workflow: `name` and `trigger_type` are required. -/
def workflowFields (data : WorkflowInput) : List EnteredField :=
  [⟨"name", data.name, [.required, nameLength]⟩,
   ⟨"trigger_type", data.triggerType, [.required, .oneOf triggerTypes]⟩,
   ⟨"status", data.status, [.oneOf statuses]⟩]

/-- The rules for a change of a workflow: those for a new one, but that nothing is `required`. -/
def workflowPatchFields (data : WorkflowInput) : List EnteredField :=
  [⟨"name", data.name, [nameLength]⟩,
   ⟨"trigger_type", data.triggerType, [.oneOf triggerTypes]⟩,
   ⟨"status", data.status, [.oneOf statuses]⟩]

/-- Makes a workflow from what has been entered, which is a `draft` unless `status` says otherwise.
The store gives it an identifier. -/
def create (data : WorkflowInput) (organization : OrganizationId) (user : UserId) :
    Work Workflow := do
  check (workflowFields data)
  match data.name, data.triggerType with
  | some name, some triggerType =>
    let triggerType ← parse triggerType
    let status ← parseOr data.status .draft
    let row := Workflow.new Uuid.nil organization user name triggerType (← get).clock
    access (Storage.insertWorkflow
      { row with
        description := data.description
        triggerConfig := data.triggerConfig.getD []
        status })
  | _, _ => throw (.validation ["name and trigger_type are required"])

/-- Changes a workflow: the row at hand with the fields that `data` has is written by
`updateWorkflow`, so that the other fields become what the row at hand says of them. -/
def update (workflow : Workflow) (data : WorkflowInput) : Work Workflow := do
  check (workflowPatchFields data)
  let triggerType ← parseOr data.triggerType workflow.triggerType
  let status ← parseOr data.status workflow.status
  access (Storage.updateWorkflow
    { workflow with
      name := data.name.getD workflow.name
      description := data.description <|> workflow.description
      triggerType
      triggerConfig := data.triggerConfig.getD workflow.triggerConfig
      status })

/-- The workflow with the identifier `id`, unless it is deleted: then `notFound`, as if it had no
row. -/
def get (id : WorkflowId) : Work Workflow := do
  match ← access (Storage.getWorkflow id false) with
  | some workflow => return workflow
  | none => throw (.notFound "Workflow not found")

/-- The workflows of an organization that are not deleted. -/
def list (organization : OrganizationId) : Work (List Workflow) :=
  access (Storage.listWorkflows organization false)

/-- Turns a workflow into a tombstone: `softDeleteWorkflow` of its `id`. -/
def delete (workflow : Workflow) : Work Unit := access (Storage.softDeleteWorkflow workflow.id)

/-- Removes a workflow with its nodes and connections: `hardDeleteWorkflow` of its `id`. -/
def hardDelete (workflow : Workflow) : Work Unit := access (Storage.hardDeleteWorkflow workflow.id)

/-! ### Nodes -/

/-- The rules for a new node: `node_type` is required. -/
def nodeFields (data : NodeInput) : List EnteredField :=
  [⟨"node_type", data.nodeType, [.required, .oneOf nodeTypes]⟩]

/-- The rules for a change of a node: `node_type` may be absent. -/
def nodePatchFields (data : NodeInput) : List EnteredField :=
  [⟨"node_type", data.nodeType, [.oneOf nodeTypes]⟩]

/-- Makes a node of a workflow; what `data` does not say is as in `Node.new`. -/
def createNode (workflow : Workflow) (data : NodeInput) : Work Node := do
  check (nodeFields data)
  match data.nodeType with
  | some nodeType =>
    let row := Node.new Uuid.nil workflow.id (← parse nodeType)
    access (Storage.insertNode
      { row with
        actionType := data.actionType
        name := data.name
        config := data.config.getD []
        position := data.position.getD Position.origin })
  | none => throw (.validation ["node_type is required"])

/-- Changes a node: the row at hand with the fields that `data` has is written by
`Storage.updateNode`. -/
def updateNode (node : Node) (data : NodeInput) : Work Node := do
  check (nodePatchFields data)
  let nodeType ← parseOr data.nodeType node.nodeType
  access (Storage.updateNode
    { node with
      nodeType
      actionType := data.actionType <|> node.actionType
      name := data.name <|> node.name
      config := data.config.getD node.config
      position := data.position.getD node.position })

/-- The node with the identifier `id`, unless it is deleted: then `notFound`, as if it had no row.
-/
def getNode (id : NodeId) : Work Node := do
  match ← access (Storage.getNode id false) with
  | some node => return node
  | none => throw (.notFound "Node not found")

/-- The nodes of a workflow that are not deleted. -/
def listNodes (workflow : Workflow) : Work (List Node) :=
  access (Storage.listNodes workflow.id false)

/-- Turns a node into a tombstone: `softDeleteNode` of its `id`. -/
def deleteNode (node : Node) : Work Unit := access (Storage.softDeleteNode node.id)

/-- Removes a node with every connection that touches it: `hardDeleteNode` of its `id`. -/
def hardDeleteNode (node : Node) : Work Unit := access (Storage.hardDeleteNode node.id)

/-! ### Connections -/

/-- The rule for a connection: its `condition_type`, if there is one, is one of `conditionTypes`. -/
def connectionFields (data : ConnectionInput) : List EnteredField :=
  [⟨"condition_type", data.conditionType, [.oneOf conditionTypes]⟩]

/-- Demands a live node `id` of the workflow, and is refused as `notFound reason` without one; so it
is by a store that answers `notFound`. -/
def requireNode (workflow : Workflow) (id : NodeId) (reason : String) : Work Unit := fun s =>
  match Storage.getNode id false s with
  | .ok (some node) s =>
    if node.workflow = workflow.id then .ok () s else .error (.notFound reason) s
  | .ok none s => .error (.notFound reason) s
  | .error (.notFound _ _) s => .error (.notFound reason) s
  | .error e s => .error (.store e) s

/-- Makes a connection between live nodes of a workflow (`requireNode`), the target first.  Without
a `source` it leads from the trigger, and without a `priority` this is 0. -/
def createConnection (workflow : Workflow) (data : ConnectionInput) : Work Connection := do
  check (connectionFields data)
  match data.target with
  | none => throw (.validation ["to_node is required"])
  | some target =>
    requireNode workflow target "To node not found"
    data.source.forM fun source => requireNode workflow source "From node not found"
    let branch ← parseOptional data.conditionType
    access (Storage.insertConnection
      { id := Uuid.nil, workflow := workflow.id, source := data.source, target, branch,
        priority := data.priority.getD 0 })

/-- The connections of a workflow, in the order of their rows. -/
def listConnections (workflow : Workflow) : Work (List Connection) :=
  access (Storage.listConnections workflow.id)

/-- Removes the connection with the identifier `id`, of whatever workflow. -/
def deleteConnection (id : ConnectionId) : Work Unit := access (Storage.deleteConnection id)

/-! ### Inspection -/

/-- The `Graph.warnings` of a workflow as it is loaded.  The components of its graph are listed as
`components` does it. -/
def validateGraph (catalogue : Catalogue) (workflow : Workflow)
    (components : Graph → List (List Graph.Place) := Graph.components) : Work (List Warning) := do
  let g ← access (Graph.load workflow.id)
  return g.warnings catalogue (components g)

end Authoring

end TriggerFlow
