import Mathlib.Data.List.Chain
import TriggerFlow.Graph
/-!
# Paths from the trigger

A path of a graph (`Graph.IsPath`) goes from the trigger along connections through live nodes that
differ from one another, so that it is no longer than the graph has live nodes
(`IsPath.length_le`).  A node that is entered below a path makes the path longer (`IsPath.push`).
-/

namespace TriggerFlow.Graph

variable {g : Graph} {path : List NodeId}

/-- A connection of `g.outgoing a` leads to `b`, live or not. -/
def Edge (g : Graph) (a b : NodeId) : Prop := ∃ c ∈ g.outgoing a, c.target = b

/-- A list of live nodes, `path.Nodup`: its head is the target of one of `g.startEdges`, and
`g.Edge` links each of the others to the one before it. -/
structure IsPath (g : Graph) (path : List NodeId) : Prop where
  distinct : path.Nodup
  live : ∀ id ∈ path, id ∈ g.ids
  starts : ∀ id, path.head? = some id → ∃ c ∈ g.startEdges, c.target = id
  linked : path.IsChain g.Edge

/-- The connections that are followed below `path`, of which the innermost node comes first:
`g.startEdges` for `[]`, and else those that leave the head. -/
def edgesBelow (g : Graph) : List NodeId → List Connection
  | [] => g.startEdges
  | id :: _ => g.outgoing id

theorem isPath_nil : IsPath g [] := ⟨.nil, by simp, by simp, .nil⟩

/-- Appending the target of a connection of `g.edgesBelow path` keeps `IsPath`, provided that the
target is live and not on the path. -/
theorem IsPath.push {c : Connection} (h : IsPath g path.reverse) (hc : c ∈ g.edgesBelow path)
    (hnew : c.target ∉ path) (hlive : c.target ∈ g.ids) :
    IsPath g (c.target :: path).reverse := by
  rw [List.reverse_cons]
  refine ⟨?_, ?_, ?_, ?_⟩
  · refine List.nodup_append.mpr ⟨h.distinct, List.pairwise_singleton _ _, ?_⟩
    rintro a ha b hb rfl
    rw [List.mem_singleton.mp hb] at ha
    exact hnew (List.mem_reverse.mp ha)
  · intro id hid
    rcases List.mem_append.mp hid with hid | hid
    · exact h.live id hid
    · rwa [List.mem_singleton.mp hid]
  · intro id hid
    -- the first node of a path is the only one without a node before it
    cases path with
    | nil =>
      obtain rfl : c.target = id := by simpa using hid
      exact ⟨c, hc, rfl⟩
    | cons a rest =>
      have hne : (a :: rest).reverse ≠ [] := by simp
      exact h.starts id (by rwa [List.head?_append_of_ne_nil _ hne] at hid)
  · refine List.isChain_append.mpr ⟨h.linked, .singleton _, ?_⟩
    intro a ha b hb
    cases path with
    | nil => simp at ha
    | cons a' rest =>
      obtain rfl : a' = a := by simpa using ha
      obtain rfl : c.target = b := by simpa using hb
      exact ⟨c, hc, rfl⟩

/-- A path is no longer than `g.ids`: its nodes are live and distinct. -/
theorem IsPath.length_le (h : IsPath g path) : path.length ≤ g.ids.length :=
  List.Nodup.length_le_of_subset h.distinct h.live

/-! ### Live nodes are counted once -/

theorem mem_map_id_putNode {row : Node} {ns : List Node} {id : NodeId} :
    id ∈ (putNode row ns).map Node.id ↔ id = row.id ∨ id ∈ ns.map Node.id := by
  induction ns with
  | nil => simp [putNode]
  | cons n ns ih =>
    rw [putNode]
    split
    · next h => simp [h]
    · rw [List.map_cons, List.mem_cons, ih, List.map_cons, List.mem_cons]
      tauto

theorem nodup_map_id_putNode (row : Node) {ns : List Node} (h : (ns.map Node.id).Nodup) :
    ((putNode row ns).map Node.id).Nodup := by
  induction ns with
  | nil => simp [putNode]
  | cons n ns ih =>
    rw [List.map_cons, List.nodup_cons] at h
    rw [putNode]
    split
    · next heq => exact List.nodup_cons.mpr ⟨heq ▸ h.1, h.2⟩
    · next hne =>
      refine List.nodup_cons.mpr ⟨?_, ih h.2⟩
      rw [mem_map_id_putNode, not_or]
      exact ⟨hne, h.1⟩

theorem putNode_of_new {row : Node} {ns : List Node} (h : row.id ∉ ns.map Node.id) :
    putNode row ns = ns ++ [row] := by
  induction ns with
  | nil => rfl
  | cons n ns ih =>
    rw [List.map_cons, List.mem_cons, not_or] at h
    rw [putNode, if_neg (Ne.symm h.1), ih h.2, List.cons_append]

/-- Over live rows that share no identifier, the nodes of the graph are the rows themselves. -/
theorem nodes_ofRows_of_nodup {nodes : List Node} (connections : List Connection)
    (hlive : ∀ n ∈ nodes, n.deleted = false) (hnodup : (nodes.map Node.id).Nodup) :
    (ofRows nodes connections).nodes = nodes := by
  have hfold (rows ns : List Node) (h : ((ns ++ rows).map Node.id).Nodup) :
      rows.foldl (fun ns n => putNode n ns) ns = ns ++ rows := by
    induction rows generalizing ns with
    | nil => rw [List.foldl_nil, List.append_nil]
    | cons row rows ih =>
      have hnew : row.id ∉ ns.map Node.id := by
        intro hmem
        rw [List.map_append, List.nodup_append] at h
        exact h.2.2 _ hmem _ (List.mem_cons_self ..) rfl
      rw [List.foldl_cons, putNode_of_new hnew, ih _ (by simpa using h), List.append_assoc,
        List.singleton_append]
  have hfilter : nodes.filter (fun n => !n.deleted) = nodes := by
    rw [List.filter_eq_self]
    intro n hn
    rw [hlive n hn, Bool.not_false]
  rw [ofRows, liveNodes, hfilter, hfold nodes [] (by simpa using hnodup), List.nil_append]

/-- The identifiers of `ofRows nodes connections` are those of the rows with `deleted = false`. -/
theorem mem_ids_ofRows {nodes : List Node} {connections : List Connection} {id : NodeId} :
    id ∈ (ofRows nodes connections).ids ↔ ∃ n ∈ nodes, n.deleted = false ∧ n.id = id := by
  have hfold (rows ns : List Node) :
      id ∈ (rows.foldl (fun ns n => putNode n ns) ns).map Node.id ↔
        id ∈ ns.map Node.id ∨ ∃ n ∈ rows, n.id = id := by
    induction rows generalizing ns with
    | nil => simp
    | cons row rows ih =>
      rw [List.foldl_cons, ih, mem_map_id_putNode]
      simp only [List.exists_mem_cons_iff]
      tauto
  have hlive := hfold (nodes.filter fun n => !n.deleted) []
  simp only [List.map_nil, List.not_mem_nil, false_or, List.mem_filter, Bool.not_eq_true',
    and_assoc] at hlive
  exact hlive

theorem isSome_node?_iff {id : NodeId} : (g.node? id).isSome = true ↔ id ∈ g.ids := by
  rw [node?, List.find?_isSome, ids, List.mem_map]
  simp only [beq_iff_eq]

theorem mem_connections_of_edgesBelow {c : Connection} (h : c ∈ g.edgesBelow path) :
    c ∈ g.connections := by
  cases path with
  | nil => exact List.mem_of_mem_filter h
  | cons id rest => exact List.mem_of_mem_filter h

theorem mem_connections_ofRows {nodes : List Node} {connections : List Connection}
    {c : Connection} :
    c ∈ (ofRows nodes connections).connections ↔
      c ∈ connections ∧ touches (tombstones nodes) c = false := by
  rw [ofRows, (List.mergeSort_perm _ _).mem_iff, List.mem_filter, Bool.not_eq_true']

/-- As `Graph.ofRows` keeps no connection with an end in `tombstones`, the row of an end is live. -/
theorem end_live_of_row {nodes : List Node} {connections : List Connection} {c : Connection}
    {n : Node} (hc : c ∈ (ofRows nodes connections).connections) (hn : n ∈ nodes)
    (hend : c.target = n.id ∨ c.source = some n.id) :
    n.id ∈ (ofRows nodes connections).ids := by
  obtain ⟨-, htouch⟩ := mem_connections_ofRows.mp hc
  refine mem_ids_ofRows.mpr ⟨n, hn, ?_, rfl⟩
  rw [← Bool.not_eq_true]
  intro hdeleted
  have htomb : n.id ∈ tombstones nodes :=
    List.mem_map.mpr ⟨n, List.mem_filter.mpr ⟨hn, hdeleted⟩, rfl⟩
  rcases hend with htarget | hsource
  · simp [touches, htarget, htomb] at htouch
  · simp [touches, hsource, htomb] at htouch

/-- Spells `touches (tombstones nodes) c` out: some row with `deleted = true` is at an end of `c`.
-/
theorem exists_tombstone_of_touches {nodes : List Node} {c : Connection}
    (h : touches (tombstones nodes) c = true) :
    ∃ n ∈ nodes, n.deleted = true ∧ (c.target = n.id ∨ c.source = some n.id) := by
  have hrow {id : NodeId} (htomb : id ∈ tombstones nodes) :
      ∃ n ∈ nodes, n.deleted = true ∧ n.id = id := by
    obtain ⟨n, hn, hid⟩ := List.mem_map.mp htomb
    obtain ⟨hn, hdeleted⟩ := List.mem_filter.mp hn
    exact ⟨n, hn, hdeleted, hid⟩
  rw [touches, Bool.or_eq_true, List.contains_iff_mem] at h
  rcases h with htarget | hsource
  · obtain ⟨n, hn, hdeleted, hid⟩ := hrow htarget
    exact ⟨n, hn, hdeleted, .inl hid.symm⟩
  · obtain ⟨id, hid, htomb⟩ := (Option.any_eq_true _ _).mp hsource
    obtain ⟨n, hn, hdeleted, rfl⟩ := hrow (List.contains_iff_mem.mp htomb)
    exact ⟨n, hn, hdeleted, .inr hid⟩

theorem nodup_ids_ofRows (nodes : List Node) (connections : List Connection) :
    (ofRows nodes connections).ids.Nodup := by
  have hfold (rows ns : List Node) (h : (ns.map Node.id).Nodup) :
      ((rows.foldl (fun ns n => putNode n ns) ns).map Node.id).Nodup := by
    induction rows generalizing ns with
    | nil => exact h
    | cons row rows ih => exact ih _ (nodup_map_id_putNode row h)
  exact hfold _ [] .nil

end TriggerFlow.Graph
