import TriggerFlow.Catalogue
import TriggerFlow.Condition
import TriggerFlow.Graph
import TriggerFlow.World
/-!
# Running a workflow

A run walks the graph of a workflow depth first, from the trigger along the connections in their
order.  It enters a node (`Engine.visit`), does what the node is for (`Engine.act`), and then
follows the connections that leave it (`Engine.follow`), those of a condition only on the branch
that was taken.  A node is entered once for every path that leads to it.

The walk ends early at the first failure: a cycle, a path that is too long, a node that is missing,
or an action that is unknown, badly configured, fails or crashes (`ExecutionError`).  Whatever
happens is caught once, in `Engine.execute`, and written on the row of the execution.  The only
error that the caller gets is that the row could not be made.

The walk needs no bound of its own.  The nodes on the current path are live and differ from one
another, so with every step down fewer live nodes are left (`Graph.remaining`).
-/

namespace TriggerFlow

/-- What ends a run in failure; `ExecutionError.message` is what its row then says. -/
inductive ExecutionError where
  | noStartNode
  | unknownActionType (actionType : String)
  | missingActionType (node : NodeId)
  | invalidActionConfig (errors : List String)
  | actionFailed (node : NodeId) (error : ActionError)
  | reservedContextKey (key : String)
  | nodeNotFound (node : NodeId)
  | cycleDetected (node : NodeId)
  | maxDepthExceeded (maxDepth : Nat)
  | store (error : StoreError)
  /-- An action crashed, with a message or without one (`crashWithoutMessage`). -/
  | crashed (message : Option String)
deriving DecidableEq

namespace ExecutionError

/-- The message of `crashed none`. -/
def crashWithoutMessage : String := "Unhandled panic during execution"

def message : ExecutionError → String
  | noStartNode => "no starting node found"
  | unknownActionType actionType => "Unknown action type: " ++ actionType
  | missingActionType node => "Action node " ++ node.text ++ " has no action type"
  | invalidActionConfig errors => "Invalid action configuration: " ++ ", ".intercalate errors
  | actionFailed node error => "Action " ++ node.text ++ " failed: " ++ error.message
  | reservedContextKey key => "Trigger payload uses reserved context key '" ++ key ++ "'"
  | nodeNotFound node => "Node not found: " ++ node.text
  | cycleDetected node => "Cycle detected at node " ++ node.text
  | maxDepthExceeded maxDepth =>
    "Maximum traversal depth of " ++ Number.decimal maxDepth ++ " exceeded"
  | store error => error.message
  | crashed message => message.getD crashWithoutMessage

end ExecutionError

/-- What runs are made with: the actions of `catalogue`, and `maxDepth`, the greatest number of
nodes on a path. -/
structure Engine where
  catalogue : Catalogue
  maxDepth : Nat

/-- A run in progress: the world, and the `execution` as the run knows it, which may differ from the
row in the store. -/
structure Run where
  world : World
  execution : Execution

/-- A step of a run, which may end it with an `ExecutionError`. -/
abbrev Step (α : Type) := EStateM ExecutionError Run α

namespace Run

/-- Makes the row of a run and reports `executionStarted`.  A refusal of `insertExecution` is the
only error. -/
def begin (workflow : Workflow) (triggerType : String) (payload : Fields) : Effect Run := do
  let row := Execution.start Uuid.nil workflow.id triggerType payload (← get).now
  let execution ← World.access (Storage.insertExecution row)
  modify fun w => w.report execution.id (.executionStarted workflow.id triggerType)
  return ⟨← get, execution⟩

/-- The run once it has reported `happening` under the identifier of its execution. -/
def after (r : Run) (happening : Happening) : Run :=
  { r with world := r.world.report r.execution.id happening }

/-- Reports `happening`: the run becomes `r.after happening`. -/
def report (happening : Happening) : Step Unit := modify fun r => r.after happening

/-- The run once its store has become `s`. -/
def withStorage (r : Run) (s : Storage) : Run := { r with world := { r.world with storage := s } }

/-- Uses the store; the refusal `e` ends the run as `.store e`. -/
def access {α : Type} (a : Access α) : Step α := fun r =>
  match a r.world.storage with
  | .ok v s => .ok v (r.withStorage s)
  | .error e s => .error (.store e) (r.withStorage s)

/-- Lets `action` run on the settings `config` and on the context of the run.  The verdict is an
answer, whatever it is. -/
def perform (action : Action) (config : Config) : Step Verdict := fun r =>
  let (verdict, s) := action.run config r.execution.context r.world.storage
  .ok verdict (r.withStorage s)

/-- Writes the `result` of a node's action into the execution (`recordAction`), and then the
execution into its row.  The run knows the result even if the row is refused. -/
def checkpoint (node : NodeId) (result : Json) : Step Unit := do
  modify fun r => { r with execution := r.execution.recordAction node result }
  access (Storage.updateExecution (← get).execution)

end Run

namespace Engine

/-- Runs the action of a node: `missingActionType`, `unknownActionType` and `invalidActionConfig`
are thrown before it runs, `actionFailed` and `crashed` after it.  A result is put down by
`checkpoint` and then reported. -/
def runAction (engine : Engine) (node : Node) : Step Unit := do
  match node.actionType with
  | none => throw (.missingActionType node.id)
  | some actionType =>
    match engine.catalogue.action? actionType with
    | none => throw (.unknownActionType actionType)
    | some action =>
      let errors := action.validate node.config
      if errors ≠ [] then throw (.invalidActionConfig errors)
      let started := (← get).world.now
      match ← Run.perform action node.config with
      | .failed error => throw (.actionFailed node.id error)
      | .crashed message => throw (.crashed message)
      | .done result =>
        let ms := started.millisSince (← get).world.now
        Run.checkpoint node.id result
        Run.report (.actionCompleted node.id actionType ms)

/-- Does what a node is for: nothing for a trigger, `runAction` for an action.  A condition is
evaluated, and answers with the branch to take. -/
def act (engine : Engine) (node : Node) : Step (Option ConditionType) := do
  match node.nodeType with
  | .trigger => return none
  | .action =>
    engine.runAction node
    return none
  | .condition =>
    let result := Condition.evaluate node.config (← get).execution.context
    Run.report (.conditionEvaluated node.id result)
    return some (ConditionType.ofBool result)

/-- Whether a connection is taken: not if it is tagged with the other `branch` of a condition.
Without a `branch`, all are. -/
def takes (branch : Option ConditionType) (c : Connection) : Bool :=
  match branch, c.branch with
  | some taken, some tagged => taken == tagged
  | _, _ => true

/-- The node to enter below the nodes of `path`, or why it is not entered: `cycleDetected`,
`maxDepthExceeded` or `nodeNotFound`, in this order. -/
def entry (engine : Engine) (g : Graph) (path : List NodeId) (id : NodeId) :
    Except ExecutionError Node :=
  if id ∈ path then .error (.cycleDetected id)
  else if engine.maxDepth ≤ path.length then .error (.maxDepthExceeded engine.maxDepth)
  else
    match g.node? id with
    | none => .error (.nodeNotFound id)
    | some node => .ok node

theorem entry_eq_ok_iff {engine : Engine} {g : Graph} {path : List NodeId} {id : NodeId}
    {node : Node} :
    engine.entry g path id = .ok node ↔
      id ∉ path ∧ path.length < engine.maxDepth ∧ g.node? id = some node := by
  unfold entry
  by_cases hp : id ∈ path
  · simp [hp]
  by_cases hd : engine.maxDepth ≤ path.length
  · simp [hp, hd, Nat.not_lt.mpr hd]
  · cases hn : g.node? id <;> simp [hp, hd, Nat.lt_of_not_le hd]

/-- An `entry` is refused as `cycleDetected` if `id ∈ path`, else as `maxDepthExceeded` if `path`
has `maxDepth` nodes, else as `nodeNotFound` if `g.node? id = none`. -/
theorem entry_eq_error_iff {engine : Engine} {g : Graph} {path : List NodeId} {id : NodeId}
    {e : ExecutionError} :
    engine.entry g path id = .error e ↔
      (id ∈ path ∧ e = .cycleDetected id) ∨
      (id ∉ path ∧ engine.maxDepth ≤ path.length ∧ e = .maxDepthExceeded engine.maxDepth) ∨
      (id ∉ path ∧ path.length < engine.maxDepth ∧ g.node? id = none ∧ e = .nodeNotFound id) := by
  unfold entry
  by_cases hp : id ∈ path
  · simp [hp, eq_comm]
  by_cases hd : engine.maxDepth ≤ path.length
  · simp [hp, hd, Nat.not_lt.mpr hd, eq_comm]
  · cases hn : g.node? id <;> simp [hp, hd, Nat.lt_of_not_le hd, eq_comm]

mutual

/-- Enters the node `id` below the nodes of `path`, of which the innermost comes first: reports it,
does `act`, and follows `g.outgoing id`. -/
def visit (engine : Engine) (g : Graph) (path : List NodeId) (id : NodeId) : Step Unit :=
  match _h : engine.entry g path id with
  | .error e => throw e
  | .ok node => do
    Run.report (.nodeEntered id (Vocabulary.text node.nodeType) path.length)
    let branch ← engine.act node
    follow engine g (id :: path) id branch (g.outgoing id)
termination_by (g.remaining path, 0)
decreasing_by
  obtain ⟨hnew, -, hnode⟩ := entry_eq_ok_iff.mp _h
  exact Prod.Lex.left _ _ (Graph.remaining_cons_lt (Graph.mem_ids_of_node? hnode) hnew)

/-- Follows connections that leave the node `source`, one after the other: `visit` if `takes branch
c`, and else `edgeSkipped`. -/
def follow (engine : Engine) (g : Graph) (path : List NodeId) (source : NodeId)
    (branch : Option ConditionType) : List Connection → Step Unit
  | [] => return ()
  | c :: cs => do
    if takes branch c then visit engine g path c.target
    else Run.report (.edgeSkipped source c.target)
    follow engine g path source branch cs
termination_by edges => (g.remaining path, edges.length + 1)
decreasing_by
  · exact Prod.Lex.right _ (by simp)
  · exact Prod.Lex.right _ (by simp)

end

/-- Walks the graph of a workflow from the trigger: `reservedContextKey` if the payload has
`actionsKey`, `noStartNode` if there are no `startEdges`, and else a `visit` of each of their
targets. -/
def traverse (engine : Engine) (workflow : WorkflowId) : Step Unit := do
  if Fields.has actionsKey (← get).execution.triggerData then
    throw (.reservedContextKey actionsKey)
  let g ← Run.access (Graph.load workflow)
  if g.startEdges.isEmpty then throw .noStartNode
  g.startEdges.forM fun c => engine.visit g [] c.target

/-- The world after a run: `executionCompleted` or `executionFailed` is reported, and the outcome is
written on the row, unless the row is closed or the store refuses. -/
def conclude (started : Timestamp) : EStateM.Result ExecutionError Run Unit → World
  | .ok () r =>
    let w := r.world.report r.execution.id (.executionCompleted (started.millisSince r.world.now))
    record w (r.execution.complete r.world.now)
  | .error e r =>
    let w := r.world.report r.execution.id
      (.executionFailed e.message (started.millisSince r.world.now))
    record w (r.execution.fail e.message r.world.now)
where
  /-- Writes `row` into the store; a refusal has no consequence. -/
  record (w : World) (row : Execution) : World :=
    match Storage.updateExecution row w.storage with
    | .ok () s => { w with storage := s }
    | .error _ s => { w with storage := s }

/-- Runs a workflow for one firing of a trigger and answers with the execution's identifier:
`Run.begin`, `traverse`, `conclude`.  How the run ends is no error of the caller. -/
def execute (engine : Engine) (workflow : Workflow) (triggerType : String) (payload : Fields) :
    Effect ExecutionId := do
  let started := (← get).now
  let run ← Run.begin workflow triggerType payload
  set (conclude started (engine.traverse workflow.id run))
  return run.execution.id

end Engine

end TriggerFlow
