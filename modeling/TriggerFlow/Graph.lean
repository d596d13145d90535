import TriggerFlow.Store.Access
/-!
# Graphs

A `Graph` is what a run sees of a workflow: `liveNodes`, and the connections that touch none of the
`tombstones`, in ascending order of `priority`, equal priorities in the order of their rows
(`Graph.ofRows`).  It is taken from the store once (`Graph.load`) and does not change with it.

`remaining_cons_lt` is what makes every search and every walk of a graph end: `g.remaining path`
falls with each live node that is put on a path on which it was not.
-/

namespace TriggerFlow

/-- The live nodes and the usable connections of a workflow; see `Graph.ofRows`. -/
structure Graph where
  nodes : List Node
  /-- All connections in the order in which they are followed: `startEdges` and `outgoing` filter
  them. -/
  connections : List Connection

namespace Graph

/-- A `row` takes the place of the first row with its `id`, or comes last. -/
def putNode (row : Node) : List Node → List Node
  | [] => [row]
  | n :: ns => if n.id = row.id then row :: ns else n :: putNode row ns

/-- The rows that are not `deleted`, put down one after the other by `putNode`: of rows that share
an identifier the last one counts, at the place of the first. -/
def liveNodes (rows : List Node) : List Node :=
  (rows.filter fun n => !n.deleted).foldl (fun ns n => putNode n ns) []

/-- The identifiers of the rows that are `deleted`. -/
def tombstones (rows : List Node) : List NodeId := (rows.filter Node.deleted).map Node.id

/-- Whether `target` or `source` of the connection is among `ids`. -/
def touches (ids : List NodeId) (c : Connection) : Bool :=
  ids.contains c.target || c.source.any fun s => ids.contains s

/-- The graph of some rows: `liveNodes nodes`, and the connections that do not touch `tombstones
nodes`, sorted by `priority`.  The sort is stable. -/
def ofRows (nodes : List Node) (connections : List Connection) : Graph :=
  { nodes := liveNodes nodes
    connections := (connections.filter fun c => !touches (tombstones nodes) c).mergeSort
      fun a b => decide (a.priority.toInt ≤ b.priority.toInt) }

/-- The graph of a workflow in the tables `t`: `ofRows` of all its nodes, tombstones among them, and
of its connections. -/
def ofTables (t : Tables) (workflow : WorkflowId) : Graph :=
  ofRows (t.listNodes workflow true) (t.listConnections workflow)

/-- The graph of a workflow as the store has it now.  `listNodes` and `listConnections` are two
calls, each of which may be refused; without outages it is `ofTables` (`load_of_calm`). -/
def load (workflow : WorkflowId) : Access Graph := do
  let nodes ← Storage.listNodes workflow true
  let connections ← Storage.listConnections workflow
  return ofRows nodes connections

/-! ### Views -/

/-- The live node with the identifier `id`, or `none` if it has no node in the graph. -/
def node? (g : Graph) (id : NodeId) : Option Node := g.nodes.find? fun n => n.id == id

/-- The identifiers of `nodes`. -/
def ids (g : Graph) : List NodeId := g.nodes.map Node.id

/-- The connections from the trigger: those whose `source` is `none`. -/
def startEdges (g : Graph) : List Connection := g.connections.filter fun c => c.source.isNone

/-- The connections whose `source` is `some id`, in the order in which they are followed. -/
def outgoing (g : Graph) (id : NodeId) : List Connection :=
  g.connections.filter fun c => c.source == some id

/-- The live nodes in ascending order of their identifiers (`Uuid.le`). -/
def sortedNodes (g : Graph) : List Node := g.nodes.mergeSort fun a b => a.id.le b.id

theorem mem_ids_of_node? {g : Graph} {id : NodeId} {n : Node} (h : g.node? id = some n) :
    id ∈ g.ids := by
  have hn := List.find?_some h
  simp only [beq_iff_eq] at hn
  exact List.mem_map.2 ⟨n, List.mem_of_find?_eq_some h, hn⟩

/-- The live nodes that are not `seen`, counted.  It is the measure of `closure` and of the walk. -/
def remaining (g : Graph) (seen : List NodeId) : Nat :=
  (g.ids.filter fun id => !seen.contains id).length

/-- With a live `id` that was not in it, `id :: seen` leaves fewer nodes than `seen`. -/
theorem remaining_cons_lt {g : Graph} {seen : List NodeId} {id : NodeId} (hlive : id ∈ g.ids)
    (hnew : id ∉ seen) : g.remaining (id :: seen) < g.remaining seen := by
  simp only [remaining]
  have hsub : (g.ids.filter fun x => !(id :: seen).contains x)
      = (g.ids.filter fun x => !seen.contains x).filter fun x => x != id := by
    rw [List.filter_filter]
    congr 1
    funext x
    by_cases h : x = id <;> by_cases h' : x ∈ seen <;> simp [h, h']
  rw [hsub]
  apply List.length_filter_lt_length_iff_exists.2
  exact ⟨id, by simp [hlive, hnew], by simp⟩

end Graph

end TriggerFlow
