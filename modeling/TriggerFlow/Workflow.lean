import TriggerFlow.Timestamp
import TriggerFlow.Uuid
import TriggerFlow.Vocabulary
/-!
# Workflows

A `Workflow` belongs to an organization and waits for a trigger.  What it does is a graph: each
`Node` acts or decides, and each `Connection` leads from node to node.  A connection whose `source`
is `none` starts at the trigger.  Nodes and workflows can be marked as `deleted` and stay in place
as tombstones.
-/

namespace TriggerFlow

abbrev WorkflowId := Uuid
abbrev NodeId := Uuid
abbrev ConnectionId := Uuid
abbrev ExecutionId := Uuid
abbrev OrganizationId := Uuid
abbrev UserId := Uuid

/-- The static settings of a node, read by `Action.validate` and `Condition.ofConfig?`. -/
abbrev Config := Fields

/-- What a run knows: the trigger's payload and, under `actionsKey`, the results of actions. -/
abbrev Context := Fields

/-! ### Words -/

/-- The business events that can start a workflow. -/
inductive TriggerType where
  | bookingCreated
  | bookingConfirmed
  | bookingCancelled
  | bookingReminder
  | eventCreated
  | eventUpdated
  | eventDeleted
deriving DecidableEq

namespace TriggerType

def all : List TriggerType :=
  [.bookingCreated, .bookingConfirmed, .bookingCancelled, .bookingReminder, .eventCreated,
   .eventUpdated, .eventDeleted]

def text : TriggerType → String
  | bookingCreated => "booking.created"
  | bookingConfirmed => "booking.confirmed"
  | bookingCancelled => "booking.cancelled"
  | bookingReminder => "booking.reminder"
  | eventCreated => "event.created"
  | eventUpdated => "event.updated"
  | eventDeleted => "event.deleted"

/-- The first of `TriggerType.all` that is written as the word `s`. -/
def ofText? (s : String) : Option TriggerType := all.find? fun t => t.text == s

end TriggerType

instance : Vocabulary TriggerType where
  all := TriggerType.all
  noun := "trigger type"
  text := TriggerType.text
  ofText? := TriggerType.ofText?
  mem_all a := by cases a <;> simp [TriggerType.all]
  ofText?_eq_some_iff {_ a} := by
    constructor
    · intro h
      rw [TriggerType.ofText?, List.find?_eq_some_iff_append] at h
      exact beq_iff_eq.mp h.1
    · rintro rfl
      cases a <;> rfl

/-- Whether a workflow reacts to its trigger: only one that is `active` does. -/
inductive WorkflowStatus where
  | active
  | inactive
  | draft
deriving DecidableEq

instance : Vocabulary WorkflowStatus where
  all := [.active, .inactive, .draft]
  noun := "status"
  text
    | .active => "active"
    | .inactive => "inactive"
    | .draft => "draft"
  ofText?
    | "active" => some .active
    | "inactive" => some .inactive
    | "draft" => some .draft
    | _ => none
  mem_all a := by cases a <;> simp
  ofText?_eq_some_iff {_ a} := by
    constructor
    · intro h
      split at h <;> cases h <;> rfl
    · rintro rfl
      cases a <;> rfl

/-- What a node is for; `Engine.act` does it. -/
inductive NodeType where
  | trigger
  | action
  | condition
deriving DecidableEq

instance : Vocabulary NodeType where
  all := [.trigger, .action, .condition]
  noun := "node type"
  text
    | .trigger => "trigger"
    | .action => "action"
    | .condition => "condition"
  ofText?
    | "trigger" => some .trigger
    | "action" => some .action
    | "condition" => some .condition
    | _ => none
  mem_all a := by cases a <;> simp
  ofText?_eq_some_iff {_ a} := by
    constructor
    · intro h
      split at h <;> cases h <;> rfl
    · rintro rfl
      cases a <;> rfl

/-- The outcome of a condition that a connection belongs to; `Engine.takes` compares it. -/
inductive ConditionType where
  | true
  | false
deriving DecidableEq

namespace ConditionType

def ofBool (b : Bool) : ConditionType := if b then .true else .false

end ConditionType

instance : Vocabulary ConditionType where
  all := [.true, .false]
  noun := "condition type"
  text
    | .true => "true"
    | .false => "false"
  ofText?
    | "true" => some .true
    | "false" => some .false
    | _ => none
  mem_all a := by cases a <;> simp
  ofText?_eq_some_iff {_ a} := by
    constructor
    · intro h
      split at h <;> cases h <;> rfl
    · rintro rfl
      cases a <;> rfl

/-! ### Rows -/

/-- A workflow of an organization; `Workflow.new` makes one. -/
structure Workflow where
  id : WorkflowId
  organization : OrganizationId
  createdBy : UserId
  name : String
  description : Option String
  triggerType : TriggerType
  triggerConfig : Config
  status : WorkflowStatus
  /-- Whether this is a tombstone; only `softDeleteWorkflow` sets it. -/
  deleted : Bool
  created : Timestamp
  updated : Timestamp

namespace Workflow

/-- A new workflow is a `draft` with no settings, made and last changed `now`. -/
def new (id : WorkflowId) (organization : OrganizationId) (user : UserId) (name : String)
    (triggerType : TriggerType) (now : Timestamp) : Workflow :=
  { id, organization, createdBy := user, name, description := none, triggerType,
    triggerConfig := [], status := .draft, deleted := false, created := now, updated := now }

/-- Whether the workflow reacts to its trigger: it is `active`, and no tombstone. -/
def isActive (w : Workflow) : Bool := w.status == .active && !w.deleted

/-- Whether the workflow waits for the trigger `t`: it `isActive`, and `t` is its `triggerType`. -/
def reactsTo (w : Workflow) (t : TriggerType) : Bool := w.isActive && w.triggerType == t

end Workflow

/-- Where a node stands in an editor; runs never look at it. -/
structure Position where
  x : Double
  y : Double
deriving DecidableEq

namespace Position

def origin : Position := ⟨Double.zero, Double.zero⟩

end Position

/-- A node of a workflow's graph; `Node.new` makes one. -/
structure Node where
  id : NodeId
  workflow : WorkflowId
  nodeType : NodeType
  /-- The `Action.id` to run, for an action node. -/
  actionType : Option String
  name : Option String
  config : Config
  position : Position
  /-- Whether this is a tombstone; only `softDeleteNode` sets it. -/
  deleted : Bool

namespace Node

/-- A new node has no name and no settings, and stands at `Position.origin`. -/
def new (id : NodeId) (workflow : WorkflowId) (nodeType : NodeType) : Node :=
  { id, workflow, nodeType, actionType := none, name := none, config := [],
    position := Position.origin, deleted := false }

def trigger (id : NodeId) (workflow : WorkflowId) : Node := new id workflow .trigger

def action (id : NodeId) (workflow : WorkflowId) (actionType : String) : Node :=
  { new id workflow .action with actionType := some actionType }

def withName (n : Node) (name : String) : Node := { n with name := some name }

/-- Writes the setting `key`, over the one that there may be. -/
def withConfig (n : Node) (key : String) (value : Json) : Node :=
  { n with config := Fields.put key value n.config }

/-- A condition node that holds the value at the dot path `field` against `value`: what
`Condition.ofConfig?` reads from its settings. -/
def condition (id : NodeId) (workflow : WorkflowId) (field operator : String) (value : Json) :
    Node :=
  (((new id workflow .condition).withConfig "field" (.string field)).withConfig "operator"
    (.string operator)).withConfig "value" value

/-- The node in messages: its `name`, or else the text of its `id`. -/
def label (n : Node) : String := n.name.getD n.id.text

end Node

/-- A directed edge of a workflow's graph, from `source` to `target`. -/
structure Connection where
  id : ConnectionId
  workflow : WorkflowId
  /-- The node it leads from; with `none` it starts at the trigger. -/
  source : Option NodeId
  target : NodeId
  /-- The outcome of a condition under which it is taken; with `none` it always is. -/
  branch : Option ConditionType
  /-- Connections are followed in ascending order of `priority` (`Graph.ofRows`). -/
  priority : Int32

namespace Connection

/-- A connection from the trigger, with `priority` 0 and on no `branch`. -/
def start (id : ConnectionId) (workflow : WorkflowId) (target : NodeId) : Connection :=
  { id, workflow, source := none, target, branch := none, priority := 0 }

/-- A connection from the node `source`, and else as `start` makes it. -/
def between (id : ConnectionId) (workflow : WorkflowId) (source target : NodeId) : Connection :=
  { start id workflow target with source := some source }

def withBranch (c : Connection) (branch : ConditionType) : Connection :=
  { c with branch := some branch }

def withPriority (c : Connection) (priority : Int32) : Connection := { c with priority }

/-- Whether the connection starts at the trigger: its `source` is `none`. -/
def isStart (c : Connection) : Bool := c.source.isNone

end Connection

end TriggerFlow
