import TriggerFlow.Context.Path
import TriggerFlow.Workflow
/-!
# Executions

An `Execution` is the record of one run of a workflow.  It begins as `running` (`Execution.start`),
with the payload of the trigger as its context, and ends as `completed` or `failed`
(`Execution.complete`, `Execution.fail`).  The results of actions are kept in the context under
`actionsKey`, by the text of the node's identifier (`Execution.recordAction`).
-/

namespace TriggerFlow

/-- How far a run has got. -/
inductive ExecutionStatus where
  | running
  | completed
  | failed
deriving DecidableEq

instance : Vocabulary ExecutionStatus where
  all := [.running, .completed, .failed]
  noun := "execution status"
  text
    | .running => "running"
    | .completed => "completed"
    | .failed => "failed"
  ofText?
    | "running" => some .running
    | "completed" => some .completed
    | "failed" => some .failed
    | _ => none
  mem_all a := by cases a <;> simp
  ofText?_eq_some_iff {_ a} := by
    constructor
    · intro h
      split at h <;> cases h <;> rfl
    · rintro rfl
      cases a <;> rfl

namespace ExecutionStatus

/-- Whether the run is over: it is unless the status is `running`. -/
def isTerminal : ExecutionStatus → Bool
  | running => false
  | completed => true
  | failed => true

end ExecutionStatus

/-- The key of a context under which the results of actions stand: `resultsIn` reads them. -/
def actionsKey : String := "actions"

/-- One run of a workflow, as its row has it. -/
structure Execution where
  id : ExecutionId
  workflow : WorkflowId
  triggerType : String
  /-- The payload of the trigger, as it came; `context` is at first the same. -/
  triggerData : Fields
  context : Context
  status : ExecutionStatus
  error : Option String
  startedAt : Timestamp
  completedAt : Option Timestamp

namespace Execution

/-- A run that has just begun: `running`, with the payload as `triggerData` and as `context`. -/
def start (id : ExecutionId) (workflow : WorkflowId) (triggerType : String) (payload : Fields)
    (now : Timestamp) : Execution :=
  { id, workflow, triggerType, triggerData := payload, context := payload, status := .running,
    error := none, startedAt := now, completedAt := none }

/-- The object under `actionsKey`, or `none` if something else or nothing stands there. -/
def resultsIn (context : Context) : Option Fields :=
  (Fields.find? actionsKey context).bind Json.asObject?

/-- A context with the `result` of a node's action put under the node's text into the object under
`actionsKey`, which is made if there is none. -/
def withResult (context : Context) (node : NodeId) (result : Json) : Context :=
  Fields.put actionsKey
    (.object (Fields.put node.text result ((resultsIn context).getD []))) context

/-- The execution whose context is `withResult e.context node result`. -/
def recordAction (e : Execution) (node : NodeId) (result : Json) : Execution :=
  { e with context := withResult e.context node result }

/-- The results that the context holds: `resultsIn e.context`. -/
def actions (e : Execution) : Option Fields := resultsIn e.context

/-- The result of a node's action, looked up in `actions` by the text of `node`. -/
def actionResult (e : Execution) (node : NodeId) : Option Json :=
  e.actions.bind fun results => Fields.find? node.text results

/-- The run is over at `now` and went well; its `error` stays as it was. -/
def complete (e : Execution) (now : Timestamp) : Execution :=
  { e with status := .completed, completedAt := some now }

/-- The run is over at `now` and went wrong with `error`. -/
def fail (e : Execution) (error : String) (now : Timestamp) : Execution :=
  { e with status := .failed, error := some error, completedAt := some now }

/-! ### JSON -/

def toJson (e : Execution) : Json :=
  .object
    [("id", e.id.toJson), ("workflow_id", e.workflow.toJson),
     ("trigger_type", .string e.triggerType), ("trigger_data", .object e.triggerData),
     ("context", .object e.context), ("status", Vocabulary.toJson e.status),
     ("error", Json.ofOption .string e.error), ("started_at", e.startedAt.toJson),
     ("completed_at", Json.ofOption Timestamp.toJson e.completedAt)]

open Record in
def reader : Reader Execution := do
  let id ← required "id" Uuid.ofJson?
  let workflow ← required "workflow_id" Uuid.ofJson?
  let triggerType ← required "trigger_type" Json.asString?
  let triggerData ← required "trigger_data" Json.asObject?
  let context ← required "context" Json.asObject?
  let status ← required "status" Vocabulary.ofJson?
  let error ← optional "error" Json.asString?
  let startedAt ← required "started_at" Timestamp.ofJson?
  let completedAt ← optional "completed_at" Timestamp.ofJson?
  return { id, workflow, triggerType, triggerData, context, status, error, startedAt, completedAt }

def ofJson? (v : Json) : Option Execution := Record.read reader v

end Execution

end TriggerFlow
