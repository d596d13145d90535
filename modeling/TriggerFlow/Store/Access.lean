import TriggerFlow.Store.Tables
/-!
# Access to the store

A `Storage` is the tables together with what surrounds them: the clock, the supply of identifiers
for new rows, and the outages that are due.  `Access α` is a use of it that answers with an `α` or
fails.

Every call of the store first looks for an outage (`attempt`): if one is due for this call it fails
before anything happens.  Whatever pattern of failing calls a run is to meet is a list of outages.
A row that is inserted gets its identifier on the way into the table.
-/

namespace TriggerFlow

/-- The calls that a store answers, one for each operation on `Tables`. -/
inductive StoreCall where
  | insertWorkflow
  | updateWorkflow
  | getWorkflow
  | listWorkflows
  | softDeleteWorkflow
  | hardDeleteWorkflow
  | insertNode
  | updateNode
  | getNode
  | listNodes
  | softDeleteNode
  | hardDeleteNode
  | insertConnection
  | listConnections
  | deleteConnection
  | insertExecution
  | updateExecution
  | getExecution
  | listExecutions
deriving DecidableEq

/-- A failure that a `call` will meet after it has been let through `skip` times. -/
structure Outage where
  call : StoreCall
  skip : Nat
  error : StoreError
deriving DecidableEq

namespace Outage

/-- The oldest outage of a `call` is met, and then removed, or comes nearer by one. -/
def meet (call : StoreCall) : List Outage → Option StoreError × List Outage
  | [] => (none, [])
  | o :: os =>
    if o.call = call then
      match o.skip with
      | 0 => (some o.error, os)
      | k + 1 => (none, { o with skip := k } :: os)
    else
      let (e, rest) := meet call os
      (e, o :: rest)

end Outage

/-- The tables, as far as they give identifiers to new rows. -/
inductive RowKind where
  | workflow
  | node
  | connection
  | execution
deriving DecidableEq

/-- Where identifiers come from: the `n`-th row of a kind is called `name kind n`, counted from one,
unless an identifier has been `reserved` for the next row of whatever kind. -/
structure IdSupply where
  name : RowKind → Nat → Uuid
  drawn : RowKind → Nat
  reserved : Option Uuid

namespace IdSupply

/-- A supply from which nothing has been drawn, so that `next` starts with `name kind 1`. -/
def ofNames (name : RowKind → Nat → Uuid) : IdSupply :=
  { name, drawn := fun _ => 0, reserved := none }

/-- The next identifier of a kind: the one that is `reserved`, which is then used up, or the next of
`name kind`. -/
def next (s : IdSupply) (kind : RowKind) : Uuid × IdSupply :=
  match s.reserved with
  | some id => (id, { s with reserved := none })
  | none =>
    let n := s.drawn kind + 1
    (s.name kind n, { s with drawn := fun k => if k = kind then n else s.drawn k })

end IdSupply

/-- A store in use: its tables, and the supply, the clock and the outages that surround them. -/
structure Storage where
  tables : Tables
  ids : IdSupply
  clock : Timestamp
  outages : List Outage

/-- A use of the store, which answers or fails with a `StoreError`. -/
abbrev Access (α : Type) := EStateM StoreError Storage α

namespace Storage

/-- An empty store without outages, so that no call fails before it reaches the tables. -/
def fresh (ids : IdSupply) (clock : Timestamp) : Storage :=
  { tables := Tables.empty, ids, clock, outages := [] }

/-- An outage that is due makes the `call` fail (`Outage.meet`); nothing else becomes of the store.
-/
def attempt (call : StoreCall) : Access Unit := fun s =>
  match Outage.meet call s.outages with
  | (some e, rest) => .error e { s with outages := rest }
  | (none, rest) => .ok () { s with outages := rest }

/-- Looks at the tables, if `attempt call` lets it. -/
def look {α : Type} (call : StoreCall) (f : Tables → α) : Access α := do
  attempt call
  return f (← get).tables

/-- Runs an operation on the tables; refused, it leaves the store as it is. -/
def change {α : Type} (f : Storage → Tables.Outcome α) : Access α := fun s =>
  match f s with
  | .ok (a, t) => .ok a { s with tables := t }
  | .error e => .error e s

/-- Draws the identifier of a new row: `IdSupply.next`. -/
def drawId (kind : RowKind) : Access Uuid := fun s =>
  let (id, ids) := s.ids.next kind
  .ok id { s with ids }

/-! ### Calls -/

def insertWorkflow (row : Workflow) : Access Workflow := do
  attempt .insertWorkflow
  let id ← drawId .workflow
  change fun s => s.tables.insertWorkflow { row with id }

def updateWorkflow (row : Workflow) : Access Workflow := do
  attempt .updateWorkflow
  change fun s => s.tables.updateWorkflow row s.clock

def getWorkflow (id : WorkflowId) (withDeleted : Bool) : Access (Option Workflow) :=
  look .getWorkflow fun t => t.getWorkflow id withDeleted

def listWorkflows (organization : OrganizationId) (withDeleted : Bool) : Access (List Workflow) :=
  look .listWorkflows fun t => t.listWorkflows organization withDeleted

def softDeleteWorkflow (id : WorkflowId) : Access Unit := do
  attempt .softDeleteWorkflow
  change fun s => s.tables.softDeleteWorkflow id s.clock

def hardDeleteWorkflow (id : WorkflowId) : Access Unit := do
  attempt .hardDeleteWorkflow
  change fun s => s.tables.hardDeleteWorkflow id

def insertNode (row : Node) : Access Node := do
  attempt .insertNode
  let id ← drawId .node
  change fun s => s.tables.insertNode { row with id }

def updateNode (row : Node) : Access Node := do
  attempt .updateNode
  change fun s => s.tables.updateNode row

def getNode (id : NodeId) (withDeleted : Bool) : Access (Option Node) :=
  look .getNode fun t => t.getNode id withDeleted

def listNodes (workflow : WorkflowId) (withDeleted : Bool) : Access (List Node) :=
  look .listNodes fun t => t.listNodes workflow withDeleted

def softDeleteNode (id : NodeId) : Access Unit := do
  attempt .softDeleteNode
  change fun s => s.tables.softDeleteNode id

def hardDeleteNode (id : NodeId) : Access Unit := do
  attempt .hardDeleteNode
  change fun s => s.tables.hardDeleteNode id

def insertConnection (row : Connection) : Access Connection := do
  attempt .insertConnection
  let id ← drawId .connection
  change fun s => s.tables.insertConnection { row with id }

def listConnections (workflow : WorkflowId) : Access (List Connection) :=
  look .listConnections fun t => t.listConnections workflow

def deleteConnection (id : ConnectionId) : Access Unit := do
  attempt .deleteConnection
  change fun s => s.tables.deleteConnection id

def insertExecution (row : Execution) : Access Execution := do
  attempt .insertExecution
  let id ← drawId .execution
  change fun s => s.tables.insertExecution { row with id }

def updateExecution (row : Execution) : Access Unit := do
  attempt .updateExecution
  change fun s => s.tables.updateExecution row

def getExecution (id : ExecutionId) : Access (Option Execution) :=
  look .getExecution fun t => t.getExecution id

def listExecutions (workflow : WorkflowId) : Access (List Execution) :=
  look .listExecutions fun t => t.listExecutions workflow

/-- The workflows of an organization that react to a trigger, among those that `listWorkflows`
answers with. -/
def findActiveWorkflows (organization : OrganizationId) (triggerType : TriggerType) :
    Access (List Workflow) := do
  let workflows ← listWorkflows organization false
  return workflows.filter fun w => w.reactsTo triggerType

end Storage

end TriggerFlow
