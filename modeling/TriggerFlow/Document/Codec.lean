import TriggerFlow.Document
import TriggerFlow.Json.Tree
import TriggerFlow.Workflow.Codec
/-!
# Documents as JSON

Components that are absent are left out when a document is written (`present`), so that what remains
is what its author said, and null reads as absent (`absentable`).  `Document.ofText?` reads a text
by the fields that `Document.shape` names: any others are passed over, and none that counts may be
given twice.
-/

namespace TriggerFlow

open Record

/-- The field `name` of `some a`, and no field for `none`. -/
def present {α : Type} (name : String) (write : α → Json) : Option α → Fields
  | none => []
  | some a => [(name, write a)]

/-- A component that may be missing or null in every form of a record, also in a list. -/
def absentable {α : Type} (name : String) (read : Json → Option α) : Reader (Option α) :=
  defaulted name none (nullable read)

namespace WorkflowEntry

def toJson (w : WorkflowEntry) : Json :=
  .object ([("name", .string w.name)] ++ present "description" .string w.description
    ++ [("trigger_type", .string w.triggerType)]
    ++ present "trigger_config" .object w.triggerConfig ++ present "status" .string w.status)

def reader : Reader WorkflowEntry := do
  let name ← required "name" Json.asString?
  let description ← absentable "description" Json.asString?
  let triggerType ← required "trigger_type" Json.asString?
  let triggerConfig ← absentable "trigger_config" Json.asObject?
  let status ← absentable "status" Json.asString?
  return { name, description, triggerType, triggerConfig, status }

def ofJson? (v : Json) : Option WorkflowEntry := Record.read reader v

def shape : Tree.Shape :=
  .record [("name", .whole), ("description", .whole), ("trigger_type", .whole),
    ("trigger_config", .whole), ("status", .whole)]

end WorkflowEntry

namespace NodeEntry

def toJson (n : NodeEntry) : Json :=
  .object ([("key", .string n.key), ("node_type", .string n.nodeType)]
    ++ present "action_type" .string n.actionType ++ present "name" .string n.name
    ++ [("config", .object n.config)])

def reader : Reader NodeEntry := do
  let key ← required "key" Json.asString?
  let nodeType ← required "node_type" Json.asString?
  let actionType ← absentable "action_type" Json.asString?
  let name ← absentable "name" Json.asString?
  let config ← defaulted "config" [] Json.asObject?
  return { key, nodeType, actionType, name, config }

def ofJson? (v : Json) : Option NodeEntry := Record.read reader v

def shape : Tree.Shape :=
  .record [("key", .whole), ("node_type", .whole), ("action_type", .whole), ("name", .whole),
    ("config", .whole)]

end NodeEntry

namespace ConnectionEntry

def toJson (c : ConnectionEntry) : Json :=
  .object (present "from" .string c.source ++ [("to", .string c.target)]
    ++ present "condition_type" .string c.conditionType
    ++ [("priority", priorityToJson c.priority)])

def reader : Reader ConnectionEntry := do
  let source ← absentable "from" Json.asString?
  let target ← required "to" Json.asString?
  let conditionType ← absentable "condition_type" Json.asString?
  let priority ← defaulted "priority" 0 priorityOfJson?
  return { source, target, conditionType, priority }

def ofJson? (v : Json) : Option ConnectionEntry := Record.read reader v

def shape : Tree.Shape :=
  .record [("from", .whole), ("to", .whole), ("condition_type", .whole), ("priority", .whole)]

end ConnectionEntry

namespace Document

def toJson (d : Document) : Json :=
  .object
    [("workflow", d.workflow.toJson), ("nodes", .array (d.nodes.map NodeEntry.toJson)),
     ("connections", .array (d.connections.map ConnectionEntry.toJson))]

def reader : Reader Document := do
  let workflow ← required "workflow" WorkflowEntry.ofJson?
  let nodes ← defaulted "nodes" [] (Record.list NodeEntry.ofJson?)
  let connections ← defaulted "connections" [] (Record.list ConnectionEntry.ofJson?)
  return { workflow, nodes, connections }

def ofJson? (v : Json) : Option Document := Record.read reader v

/-- The fields of a document that `ofText?` looks at, with those of its entries. -/
def shape : Tree.Shape :=
  .record [("workflow", WorkflowEntry.shape), ("nodes", .list NodeEntry.shape),
    ("connections", .list ConnectionEntry.shape)]

/-- The document that a text spells: `ofJson?` of what `shape` selects of it. -/
def ofText? (text : String) : Option Document := (Json.selectText? shape text).bind ofJson?

end Document

end TriggerFlow
