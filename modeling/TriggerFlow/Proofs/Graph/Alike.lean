import TriggerFlow.Proofs.Graph.Ways
/-!
# Graphs that differ in the order of their connections

Two graphs are `Graph.Alike` if a node of either has the same `Node.duty` as the node of its
identifier in the other, and the same `Connection.arrow`s leave every place, in whatever order.
This is so for graphs of rows that agree in duties and, up to their order, in arrows
(`alike_ofRows`).
-/

namespace TriggerFlow

/-- What counts of a node for a run; `workflow`, `name` and `position` are set to fixed values. -/
def Node.duty (n : Node) : Node :=
  { n with workflow := Uuid.nil, name := none, position := Position.origin }

/-- A function that does not tell a node from its `duty` has one value for nodes with the same duty.
-/
theorem Node.eq_of_duty {α : Type} (f : Node → α) (hf : ∀ n, f n.duty = f n) {n n' : Node}
    (h : n'.duty = n.duty) : f n' = f n := by
  rw [← hf n', h, hf n]

/-- What counts of a connection apart from its turn: `source`, `target` and `branch`. -/
def Connection.arrow (c : Connection) : Connection :=
  { c with id := Uuid.nil, workflow := Uuid.nil, priority := 0 }

namespace Graph

variable {g g' : Graph} {id : NodeId}

/-- The same `duty` is found under every identifier, and the arrows that leave each place agree up
to their order. -/
structure Alike (g g' : Graph) : Prop where
  node? : ∀ id, (g.node? id).map Node.duty = (g'.node? id).map Node.duty
  startEdges : (g.startEdges.map Connection.arrow).Perm (g'.startEdges.map Connection.arrow)
  outgoing : ∀ id,
    ((g.outgoing id).map Connection.arrow).Perm ((g'.outgoing id).map Connection.arrow)

theorem Alike.symm (h : Alike g g') : Alike g' g :=
  ⟨fun id => (h.node? id).symm, h.startEdges.symm, fun id => (h.outgoing id).symm⟩

theorem Alike.exists_node (h : Alike g g') {n : Node} (node : g.node? id = some n) :
    ∃ n', g'.node? id = some n' ∧ n'.duty = n.duty := by
  have hduty := h.node? id
  rw [node, Option.map_some] at hduty
  exact Option.map_eq_some_iff.mp hduty.symm

theorem exists_of_perm_arrow {edges edges' : List Connection}
    (h : (edges.map Connection.arrow).Perm (edges'.map Connection.arrow)) {c : Connection}
    (hc : c ∈ edges) : ∃ c' ∈ edges', c'.arrow = c.arrow :=
  List.mem_map.mp (h.mem_iff.mp (List.mem_map_of_mem hc))

theorem target_eq_of_arrow_eq {c c' : Connection} (h : c'.arrow = c.arrow) :
    c'.target = c.target := by
  have htarget := congrArg Connection.target h
  exact htarget

theorem Alike.reached (h : Alike g g') (hreached : g.Reached id) : g'.Reached id := by
  induction hreached with
  | start edge =>
    obtain ⟨c', hc', harrow⟩ := exists_of_perm_arrow h.startEdges edge
    rw [← target_eq_of_arrow_eq harrow]
    exact .start hc'
  | onward reached edge ih =>
    obtain ⟨c', hc', harrow⟩ := exists_of_perm_arrow (h.outgoing _) edge
    rw [← target_eq_of_arrow_eq harrow]
    exact .onward ih hc'

/-! ### Graphs of rows -/

theorem map_duty_putNode (row : Node) (ns : List Node) :
    (putNode row ns).map Node.duty = putNode row.duty (ns.map Node.duty) := by
  induction ns with
  | nil => rfl
  | cons n ns ih =>
    rw [putNode, List.map_cons, putNode]
    by_cases hid : n.id = row.id
    · rw [if_pos hid, if_pos (show n.duty.id = row.duty.id from hid), List.map_cons]
    · rw [if_neg hid, if_neg (show ¬ n.duty.id = row.duty.id from hid), List.map_cons, ih]

theorem map_duty_liveNodes (rows : List Node) :
    (liveNodes rows).map Node.duty = liveNodes (rows.map Node.duty) := by
  have hfold (rows ns : List Node) :
      (rows.foldl (fun ns n => putNode n ns) ns).map Node.duty =
        (rows.map Node.duty).foldl (fun ns n => putNode n ns) (ns.map Node.duty) := by
    induction rows generalizing ns with
    | nil => rfl
    | cons row rows ih =>
      rw [List.foldl_cons, ih, map_duty_putNode, List.map_cons, List.foldl_cons]
  rw [liveNodes, liveNodes, hfold, List.filter_map]
  rfl

theorem tombstones_map_duty (rows : List Node) :
    tombstones (rows.map Node.duty) = tombstones rows := by
  rw [tombstones, tombstones, List.filter_map, List.map_map]
  rfl

theorem map_duty_node? (g : Graph) (id : NodeId) :
    (g.node? id).map Node.duty = (g.nodes.map Node.duty).find? fun n => n.id == id := by
  rw [node?, List.find?_map]
  rfl

theorem map_arrow_connections (nodes : List Node) (connections : List Connection) :
    ((ofRows nodes connections).connections.map Connection.arrow).Perm
      ((connections.map Connection.arrow).filter fun c => !touches (tombstones nodes) c) := by
  rw [List.filter_map]
  exact (List.mergeSort_perm _ _).map _

/-- Rows of nodes with the same duties, and rows of connections with the same arrows in any order,
make graphs that are `Alike`. -/
theorem alike_ofRows {nodes nodes' : List Node} {connections connections' : List Connection}
    (hnodes : nodes'.map Node.duty = nodes.map Node.duty)
    (hconnections : (connections'.map Connection.arrow).Perm (connections.map Connection.arrow)) :
    Alike (ofRows nodes connections) (ofRows nodes' connections') := by
  have hlive : (liveNodes nodes).map Node.duty = (liveNodes nodes').map Node.duty := by
    rw [map_duty_liveNodes, map_duty_liveNodes, hnodes]
  have htombs : tombstones nodes' = tombstones nodes := by
    rw [← tombstones_map_duty, hnodes, tombstones_map_duty]
  have hall : ((ofRows nodes connections).connections.map Connection.arrow).Perm
      ((ofRows nodes' connections').connections.map Connection.arrow) := by
    refine (map_arrow_connections nodes connections).trans ?_
    refine List.Perm.trans ?_ (map_arrow_connections nodes' connections').symm
    rw [htombs]
    exact hconnections.symm.filter _
  -- whether a connection leaves a place is said by its arrow
  have hfrom (p : Connection → Bool) (hp : ∀ c, p c.arrow = p c) :
      (((ofRows nodes connections).connections.filter p).map Connection.arrow).Perm
        (((ofRows nodes' connections').connections.filter p).map Connection.arrow) := by
    have hfilter (edges : List Connection) :
        (edges.filter p).map Connection.arrow = (edges.map Connection.arrow).filter p := by
      rw [List.filter_map]
      congr 1
      exact (List.filter_congr fun c _ => hp c).symm
    rw [hfilter, hfilter]
    exact hall.filter p
  refine ⟨fun id => ?_, hfrom _ fun _ => rfl, fun id => hfrom _ fun _ => rfl⟩
  rw [map_duty_node?, map_duty_node?]
  exact congrArg _ hlive

end Graph

end TriggerFlow
