import TriggerFlow.Engine
/-!
# Dispatching events

When a business event happens, `Engine.fire` runs every active workflow of the organization that
waits for it, one after the other (`Engine.executeAll`).  `reapStale` closes the rows of runs that
never came to an end (`Execution.isStale`).
-/

namespace TriggerFlow

/-- How a store of workflows is run; `RunSettings.default` is `⟨64, 1000⟩`. -/
structure RunSettings where
  /-- The `Engine.maxDepth` of the runs. -/
  maxDepth : Nat
  /-- The configured size of the window on events (`Event.Window`). -/
  eventBufferSize : Nat

namespace RunSettings

def default : RunSettings := ⟨64, 1000⟩

instance : Inhabited RunSettings := ⟨default⟩

open Record in
/-- Reads `max_depth`, which is `default.maxDepth` if it is absent. -/
def depthReader : Reader Nat := defaulted "max_depth" default.maxDepth Json.asWord64?

open Record in
def reader : Reader RunSettings := do
  let maxDepth ← defaulted "engine" default.maxDepth (Record.read depthReader)
  let eventBufferSize ← defaulted "event_buffer_size" default.eventBufferSize Json.asWord64?
  return { maxDepth, eventBufferSize }

def ofJson? (v : Json) : Option RunSettings := Record.read reader v

end RunSettings

namespace Engine

/-- Runs `execute` on workflows one after the other; the first that gets no row ends the round, and
the answer is then its refusal. -/
def executeAll (engine : Engine) (triggerType : String) (payload : Fields) :
    List Workflow → Effect (List ExecutionId)
  | [] => return []
  | w :: ws => do
    let id ← engine.execute w triggerType payload
    let ids ← executeAll engine triggerType payload ws
    return id :: ids

/-- Runs the workflows of an organization that are active and wait for `triggerType`, in the order
in which `findActiveWorkflows` lists them. -/
def fire (engine : Engine) (organization : OrganizationId) (triggerType : TriggerType)
    (payload : Fields) : Effect (List ExecutionId) := do
  let workflows ← World.access (Storage.findActiveWorkflows organization triggerType)
  engine.executeAll (Vocabulary.text triggerType) payload workflows

end Engine

/-- The `error` of a run that has been given up. -/
def abandoned : String := "Execution abandoned"

/-- Whether a run is overdue: its status is `running`, and it began at `cutoff` or before. -/
def Execution.isStale (e : Execution) (cutoff : Timestamp) : Bool :=
  e.status == .running && e.startedAt.le cutoff

/-- Gives up the rows among these that are `isStale`, and answers with their identifiers.  One that
has been closed in the meantime is left alone: the `conflict` is no error. -/
def reapAmong (cutoff : Timestamp) : List Execution → Access (List ExecutionId)
  | [] => return []
  | e :: es => fun s =>
    if e.isStale cutoff then
      match Storage.updateExecution (e.fail abandoned s.clock) s with
      | .ok () s => (do return e.id :: (← reapAmong cutoff es)) s
      | .error (.conflict _) s => reapAmong cutoff es s
      | .error err s => .error err s
    else reapAmong cutoff es s

/-- Closes the rows of a workflow's runs that began `olderThan` seconds ago or before and have no
outcome yet.  The rows are listed once, before any of them is closed. -/
def reapStale (workflow : WorkflowId) (olderThan : Int) : Access (List ExecutionId) := do
  let cutoff := (← get).clock.addSeconds (-olderThan)
  let executions ← Storage.listExecutions workflow
  reapAmong cutoff executions

end TriggerFlow
