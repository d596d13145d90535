import TriggerFlow.Workflow
/-!
# Events

A run reports what it does as a sequence of events.  Each `Event` carries the identifier of the run
and the time; what happened is a `Happening`.  On paper an event is an object whose field `type`
names the happening (`Happening.kind`), followed by the run, the happening's own components
(`Happening.fields`) and the time.
-/

namespace TriggerFlow

/-- What a run reports; see `Run.report`. -/
inductive Happening where
  | executionStarted (workflow : WorkflowId) (triggerType : String)
  | nodeEntered (node : NodeId) (nodeType : String) (depth : Nat)
  | actionCompleted (node : NodeId) (actionType : String) (durationMs : Nat)
  | conditionEvaluated (node : NodeId) (result : Bool)
  | edgeSkipped (source target : NodeId)
  | executionCompleted (durationMs : Nat)
  | executionFailed (error : String) (durationMs : Nat)
deriving DecidableEq

/-- A report of the run `execution`, made at `timestamp`. -/
structure Event where
  execution : ExecutionId
  happening : Happening
  timestamp : Timestamp
deriving DecidableEq

namespace Happening

/-- The word for a kind of happening, which stands in the field `type`. -/
def kind : Happening → String
  | executionStarted .. => "ExecutionStarted"
  | nodeEntered .. => "NodeEntered"
  | actionCompleted .. => "ActionCompleted"
  | conditionEvaluated .. => "ConditionEvaluated"
  | edgeSkipped .. => "EdgeSkipped"
  | executionCompleted .. => "ExecutionCompleted"
  | executionFailed .. => "ExecutionFailed"

/-- The components of a happening, by their names on paper. -/
def fields : Happening → Fields
  | executionStarted workflow triggerType =>
    [("workflow_id", workflow.toJson), ("trigger_type", .string triggerType)]
  | nodeEntered node nodeType depth =>
    [("node_id", node.toJson), ("node_type", .string nodeType), ("depth", .ofNat depth)]
  | actionCompleted node actionType ms =>
    [("node_id", node.toJson), ("action_type", .string actionType), ("duration_ms", .ofNat ms)]
  | conditionEvaluated node result => [("node_id", node.toJson), ("result", .bool result)]
  | edgeSkipped source target => [("from_node", source.toJson), ("to_node", target.toJson)]
  | executionCompleted ms => [("duration_ms", .ofNat ms)]
  | executionFailed error ms => [("error", .string error), ("duration_ms", .ofNat ms)]

open Record

/-- Reads the components of a happening of a given `kind`; there is a reader for each word that
`Happening.kind` gives. -/
def reader? (kind : String) : Option (Reader Happening) :=
  if kind = "ExecutionStarted" then some do
    let workflow ← required "workflow_id" Uuid.ofJson?
    let triggerType ← required "trigger_type" Json.asString?
    return executionStarted workflow triggerType
  else if kind = "NodeEntered" then some do
    let node ← required "node_id" Uuid.ofJson?
    let nodeType ← required "node_type" Json.asString?
    let depth ← required "depth" Json.asWord64?
    return nodeEntered node nodeType depth
  else if kind = "ActionCompleted" then some do
    let node ← required "node_id" Uuid.ofJson?
    let actionType ← required "action_type" Json.asString?
    let ms ← required "duration_ms" Json.asWord64?
    return actionCompleted node actionType ms
  else if kind = "ConditionEvaluated" then some do
    let node ← required "node_id" Uuid.ofJson?
    let result ← required "result" Json.asBool?
    return conditionEvaluated node result
  else if kind = "EdgeSkipped" then some do
    let source ← required "from_node" Uuid.ofJson?
    let target ← required "to_node" Uuid.ofJson?
    return edgeSkipped source target
  else if kind = "ExecutionCompleted" then some do
    let ms ← required "duration_ms" Json.asWord64?
    return executionCompleted ms
  else if kind = "ExecutionFailed" then some do
    let error ← required "error" Json.asString?
    let ms ← required "duration_ms" Json.asWord64?
    return executionFailed error ms
  else none

end Happening

namespace Event

open Record

def toJson (e : Event) : Json :=
  .object (("type", .string e.happening.kind) :: ("execution_id", e.execution.toJson)
    :: e.happening.fields ++ [("timestamp", e.timestamp.toJson)])

/-- Reads an event, once the reader of its `happening` is known. -/
def reader (happening : Reader Happening) : Reader Event := do
  let execution ← required "execution_id" Uuid.ofJson?
  let happening ← happening
  let timestamp ← required "timestamp" Timestamp.ofJson?
  return { execution, happening, timestamp }

/-- Reads an event.  The field `type` says which reader to take; in a list it comes first. -/
def ofJson? (v : Json) : Option Event := do
  let (kind, rest) ← match v with
    | .object fs => ((Fields.find? "type" fs).bind Json.asString?).map fun kind => (kind, v)
    | .array (.string kind :: items) => some (kind, .array items)
    | _ => none
  let happening ← Happening.reader? kind
  Record.read (reader happening) rest

end Event

end TriggerFlow
