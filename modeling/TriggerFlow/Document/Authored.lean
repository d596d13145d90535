import TriggerFlow.Authoring
import TriggerFlow.Document
/-!
# Putting a document into a store

`Document.author` makes the workflow of a document, then its nodes (`authorNodes`) and then its
connections (`authorConnections`), each in the order of the document, and keeps for every key the
node that was made for it.  It ends at the first entry that is refused; what was made before stays.
-/

namespace TriggerFlow

/-- Why a document is refused: the store's refusal of an entry, or a key that is used twice or not
at all. -/
inductive DocumentError where
  | workflow (cause : AuthoringError)
  | node (key : String) (cause : AuthoringError)
  | duplicateKey (key : String)
  | unknownKey (key : String)
  | connection (source : Option String) (target : String) (cause : AuthoringError)
deriving DecidableEq

namespace DocumentError

/-- What is said of the error, from the outermost circumstance to the cause;
`AuthoringError.message` is the last line. -/
def chain : DocumentError → List String
  | workflow cause => ["invalid workflow", cause.message]
  | node key cause => ["invalid node '" ++ key ++ "'", cause.message]
  | duplicateKey key => ["duplicate node key '" ++ key ++ "'"]
  | unknownKey key => ["unknown node key '" ++ key ++ "'"]
  | connection source target cause =>
    ["invalid connection " ++ source.getD "trigger" ++ " -> " ++ target, cause.message]

end DocumentError

/-- A document in a store: its workflow, and its nodes by their keys. -/
structure AuthoredDocument where
  workflow : Workflow
  nodes : List (String × Node)

namespace AuthoredDocument

/-- The key of the node with an identifier, the inverse of looking a key up in `nodes`. -/
def keyOf? (d : AuthoredDocument) (id : NodeId) : Option String :=
  (d.nodes.find? fun entry => entry.2.id == id).map Prod.fst

end AuthoredDocument

namespace WorkflowEntry

/-- The entry as `Authoring.create` takes it. -/
def toInput (w : WorkflowEntry) : WorkflowInput :=
  { name := some w.name, description := w.description, triggerType := some w.triggerType,
    triggerConfig := w.triggerConfig, status := w.status }

end WorkflowEntry

namespace NodeEntry

/-- The entry as `Authoring.createNode` takes it: named by its `title`, and without a position. -/
def toInput (n : NodeEntry) : NodeInput :=
  { nodeType := some n.nodeType, actionType := n.actionType, name := some n.title,
    config := some n.config, position := none }

end NodeEntry

namespace Document

/-- Work on a document in a store, which may be refused. -/
abbrev Work (α : Type) := EStateM DocumentError Storage α

/-- The work of an author on one entry; `refusal` says of which, and the store stays as the work
left it. -/
def entry {α : Type} (refusal : AuthoringError → DocumentError) (work : Authoring.Work α) :
    Work α := fun s =>
  match work s with
  | .ok a s => .ok a s
  | .error e s => .error (refusal e) s

/-- Makes the nodes of the entries `ns` after those in `made`: a node under a key of `made` is made
too, and then refused as a `duplicateKey`. -/
def authorNodes (workflow : Workflow) :
    List (String × Node) → List NodeEntry → Work (List (String × Node))
  | made, [] => return made
  | made, n :: ns => do
    let node ← entry (.node n.key) (Authoring.createNode workflow n.toInput)
    if made.any fun e => e.1 == n.key then throw (.duplicateKey n.key)
    authorNodes workflow (made ++ [(n.key, node)]) ns

/-- The identifier of the node that was made for a key. -/
def resolve (nodes : List (String × Node)) (key : String) : Work NodeId :=
  match nodes.lookup key with
  | some node => return node.id
  | none => throw (.unknownKey key)

/-- Makes the connections of the entries in order, each after its `source` and then its `target`
have been resolved. -/
def authorConnections (workflow : Workflow) (nodes : List (String × Node)) :
    List ConnectionEntry → Work Unit
  | [] => return ()
  | c :: cs => do
    let source ← c.source.mapM (resolve nodes)
    let target ← resolve nodes c.target
    let _ ← entry (.connection c.source c.target) (Authoring.createConnection workflow
      { source, target := some target, conditionType := c.conditionType,
        priority := some c.priority })
    authorConnections workflow nodes cs

/-- Makes the workflow of a document with its graph. -/
def author (d : Document) (organization : OrganizationId) (user : UserId) :
    Work AuthoredDocument := do
  let workflow ← entry .workflow (Authoring.create d.workflow.toInput organization user)
  let nodes ← authorNodes workflow [] d.nodes
  authorConnections workflow nodes d.connections
  return { workflow, nodes }

end Document

end TriggerFlow
