import TriggerFlow.Graph
/-!
# Reachability

`g.closure seen todo` collects the live nodes to which connections lead from `todo` without passing
through `seen`.  Two questions are answered with it:

* `Graph.unreachable`: to which nodes no connection from the trigger leads;
* `Graph.isOnCycle`: which nodes lead back to themselves.
-/

namespace TriggerFlow.Graph

/-- The targets of `g.outgoing id`. -/
def successors (g : Graph) (id : NodeId) : List NodeId := (g.outgoing id).map Connection.target

/-- The nodes in `seen` after everything that `todo` leads to has been visited, each live node once.
It ends since `remaining` falls with each node that is visited, and else `todo` gets shorter. -/
def closure (g : Graph) (seen : List NodeId) : List NodeId → List NodeId
  | [] => seen
  | id :: rest =>
    if _h : id ∈ g.ids ∧ id ∉ seen then closure g (id :: seen) (g.successors id ++ rest)
    else closure g seen rest
termination_by todo => (g.remaining seen, todo.length)
decreasing_by
  · exact Prod.Lex.left _ _ (remaining_cons_lt _h.1 _h.2)
  · exact Prod.Lex.right _ (by simp)

/-- The closure of the targets of `startEdges`. -/
def reachable (g : Graph) : List NodeId := g.closure [] (g.startEdges.map Connection.target)

/-- The live nodes that act or decide and are not `reachable`, in ascending order.  A node of type
`trigger` is never among them. -/
def unreachable (g : Graph) : List NodeId :=
  let reached := g.reachable
  (g.sortedNodes.filter fun n => n.nodeType != .trigger && !reached.contains n.id).map Node.id

/-- Whether `id` is in the closure of its own `successors`. -/
def isOnCycle (g : Graph) (id : NodeId) : Bool := (g.closure [] (g.successors id)).contains id

end TriggerFlow.Graph
