import TriggerFlow.Graph.Reach
/-!
# Components

A cycle is looked for in the strongly connected components of a graph, the trigger among its places:
`g.findCycle components` is the place at the head of the first component that is a cycle
(`Graph.cyclic?`), or nothing.

The components are listed by a search that is not part of this library.  In which order it lists
them, and the places of each, depends on the order in which nodes are kept, which may differ from
one graph to the next.  So `findCycle` takes the listing as it comes; `g.components`, with nodes in
ascending order, is one that is right and serves where none is given.
-/

namespace TriggerFlow.Graph

/-- A place is the trigger, `none`, or a node, `some id`. -/
abbrev Place := Option NodeId

/-- The trigger and the live nodes: `none :: g.ids.map some`. -/
def places (g : Graph) : List Place := none :: g.ids.map some

/-- The connections that leave a place: `startEdges` for the trigger, `outgoing` for a node. -/
def leaving (g : Graph) : Place → List Connection
  | none => g.startEdges
  | some id => g.outgoing id

/-- A connection leads from `a` to `b`, and both are in `g.places`. -/
def Leads (g : Graph) (a b : Place) : Prop :=
  a ∈ g.places ∧ b ∈ g.places ∧ ∃ c ∈ g.leaving a, some c.target = b

instance (g : Graph) (a b : Place) : Decidable (g.Leads a b) :=
  inferInstanceAs (Decidable (_ ∧ _ ∧ _))

/-- The head of a component that is a cycle: it has `others`, or `first` leads to itself.  Nothing
if the head is the trigger. -/
def cyclic? (g : Graph) : List Place → Option NodeId
  | [] => none
  | first :: others => if others ≠ [] ∨ g.Leads first first then first else none

/-! ### One listing -/

/-- Whether `a = b`, or each of both is in the closure of what the other leads to. -/
def akin (g : Graph) (a b : NodeId) : Bool :=
  a == b || (g.closure [] (g.successors a)).contains b && (g.closure [] (g.successors b)).contains a

/-- The nodes among `others` that are not `akin` to `id`. -/
def strangers (g : Graph) (id : NodeId) (others : List NodeId) : List NodeId :=
  others.filter fun other => !g.akin id other

/-- Nodes by components: the first with all that are `akin` to it, then its `strangers`. -/
def componentsOf (g : Graph) : List NodeId → List (List Place)
  | [] => []
  | id :: rest => (id :: rest.filter (g.akin id)).map some :: g.componentsOf (g.strangers id rest)
termination_by ids => ids.length
decreasing_by exact Nat.lt_succ_of_le (List.length_filter_le _ _)

/-- The trigger by itself, then `componentsOf` the nodes in ascending order. -/
def components (g : Graph) : List (List Place) :=
  [none] :: g.componentsOf (g.sortedNodes.map Node.id)

/-! ### The search -/

/-- A node on a cycle, if there is one: the first `some id` that `cyclic?` finds in `components`. -/
def findCycle (g : Graph) (components : List (List Place) := g.components) : Option NodeId :=
  components.findSome? g.cyclic?

end TriggerFlow.Graph
