import TriggerFlow.Catalogue
import TriggerFlow.Graph.Components
/-!
# Inspecting a graph

`Graph.warnings` lists what would make a run of a graph fail, or a part of it do nothing, without
running anything: no start, action nodes that cannot run (`Node.warnings`), a cycle
(`Graph.findCycle`), and nodes that are never reached (`Graph.unreachable`).
-/

namespace TriggerFlow

/-- What is wrong with a graph; `Warning.message` is how it is told. -/
inductive Warning where
  | noStartNode
  | missingActionType (label : String)
  | unknownActionType (label actionType : String)
  | invalidActionConfig (label error : String)
  | cycle (node : NodeId)
  | unreachable (node : NodeId)
deriving DecidableEq

namespace Warning

def message : Warning → String
  | noStartNode => "Workflow has no starting node"
  | missingActionType label => "Action node " ++ label ++ " has no action type"
  | unknownActionType label actionType =>
    "Action node " ++ label ++ " uses unknown action type " ++ actionType
  | invalidActionConfig label error => "Action node " ++ label ++ ": " ++ error
  | cycle node => "Graph contains a cycle through node " ++ node.text
  | unreachable node => "Node " ++ node.text ++ " is not reachable from the trigger"

end Warning

namespace Node

/-- What keeps an action node from running: no `actionType`, one that the catalogue does not know,
or what `validate` says of its `config`.  Other nodes have no warnings. -/
def warnings (catalogue : Catalogue) (n : Node) : List Warning :=
  if n.nodeType = .action then
    match n.actionType with
    | none => [.missingActionType n.label]
    | some actionType =>
      match catalogue.action? actionType with
      | none => [.unknownActionType n.label actionType]
      | some action => (action.validate n.config).map (.invalidActionConfig n.label)
  else []

end Node

namespace Graph

/-- What is wrong with a graph: `noStartNode`, the warnings of `sortedNodes`, the `cycle` that
`findCycle components` names, and one `unreachable` for each of `g.unreachable`, in this order. -/
def warnings (catalogue : Catalogue) (g : Graph)
    (components : List (List Place) := g.components) : List Warning :=
  (if g.startEdges.isEmpty then [.noStartNode] else [])
    ++ g.sortedNodes.flatMap (Node.warnings catalogue)
    ++ ((g.findCycle components).map Warning.cycle).toList
    ++ g.unreachable.map .unreachable

end Graph

end TriggerFlow
