import TriggerFlow.Workflow
/-!
# Workflows as JSON

Every row is written as an object with one field per component, `null` standing for an absent one.
Settings, position, status, priority and the mark of a tombstone may be missing when a row is read.
-/

namespace TriggerFlow

open Record

namespace Workflow

def toJson (w : Workflow) : Json :=
  .object
    [("id", w.id.toJson), ("organization_id", w.organization.toJson),
     ("created_by", w.createdBy.toJson), ("name", .string w.name),
     ("description", Json.ofOption .string w.description),
     ("trigger_type", Vocabulary.toJson w.triggerType), ("trigger_config", .object w.triggerConfig),
     ("status", Vocabulary.toJson w.status), ("deleted", .bool w.deleted),
     ("created", w.created.toJson), ("updated", w.updated.toJson)]

def reader : Reader Workflow := do
  let id ← required "id" Uuid.ofJson?
  let organization ← required "organization_id" Uuid.ofJson?
  let createdBy ← required "created_by" Uuid.ofJson?
  let name ← required "name" Json.asString?
  let description ← optional "description" Json.asString?
  let triggerType ← required "trigger_type" Vocabulary.ofJson?
  let triggerConfig ← defaulted "trigger_config" [] Json.asObject?
  let status ← defaulted "status" .draft Vocabulary.ofJson?
  let deleted ← defaulted "deleted" false Json.asBool?
  let created ← required "created" Timestamp.ofJson?
  let updated ← required "updated" Timestamp.ofJson?
  return { id, organization, createdBy, name, description, triggerType, triggerConfig, status,
           deleted, created, updated }

def ofJson? (v : Json) : Option Workflow := Record.read reader v

end Workflow

namespace Position

def toJson (p : Position) : Json :=
  .object [("x", Json.ofDouble p.x), ("y", Json.ofDouble p.y)]

def reader : Reader Position := do
  let x ← required "x" Record.double
  let y ← required "y" Record.double
  return { x, y }

def ofJson? (v : Json) : Option Position := Record.read reader v

end Position

namespace Node

def toJson (n : Node) : Json :=
  .object
    [("id", n.id.toJson), ("workflow_id", n.workflow.toJson),
     ("node_type", Vocabulary.toJson n.nodeType),
     ("action_type", Json.ofOption .string n.actionType), ("name", Json.ofOption .string n.name),
     ("config", .object n.config), ("position", n.position.toJson), ("deleted", .bool n.deleted)]

def reader : Reader Node := do
  let id ← required "id" Uuid.ofJson?
  let workflow ← required "workflow_id" Uuid.ofJson?
  let nodeType ← required "node_type" Vocabulary.ofJson?
  let actionType ← optional "action_type" Json.asString?
  let name ← optional "name" Json.asString?
  let config ← defaulted "config" [] Json.asObject?
  let position ← defaulted "position" Position.origin Position.ofJson?
  let deleted ← defaulted "deleted" false Json.asBool?
  return { id, workflow, nodeType, actionType, name, config, position, deleted }

def ofJson? (v : Json) : Option Node := Record.read reader v

end Node

/-- Reads a priority, a number of 32 bits with a sign (`Record.int32`). -/
def priorityOfJson? (v : Json) : Option Int32 := (Record.int32 v).map Int32.ofInt

/-- A priority as a whole number; `priorityOfJson?` reads it back. -/
def priorityToJson (p : Int32) : Json := .number (.int p.toInt)

namespace Connection

def toJson (c : Connection) : Json :=
  .object
    [("id", c.id.toJson), ("workflow_id", c.workflow.toJson),
     ("from_node", Json.ofOption Uuid.toJson c.source), ("to_node", c.target.toJson),
     ("condition_type", Json.ofOption Vocabulary.toJson c.branch),
     ("priority", priorityToJson c.priority)]

def reader : Reader Connection := do
  let id ← required "id" Uuid.ofJson?
  let workflow ← required "workflow_id" Uuid.ofJson?
  let source ← optional "from_node" Uuid.ofJson?
  let target ← required "to_node" Uuid.ofJson?
  let branch ← optional "condition_type" Vocabulary.ofJson?
  let priority ← defaulted "priority" 0 priorityOfJson?
  return { id, workflow, source, target, branch, priority }

def ofJson? (v : Json) : Option Connection := Record.read reader v

end Connection

end TriggerFlow
