import Mathlib.Data.List.Nodup
import TriggerFlow.Proofs.Graph.Closure
/-!
# Links between the rows of a graph

Which nodes are linked can be told from rows alone, without the graph that is made of them.  An
identifier is `LiveIn` some rows of nodes if it has a row and no tombstone, and a row of a
connection is `Linked` to two identifiers that are live.  What leads along links in rows is what
leads along `LiveEdge` in their graph (`transGen_linked_iff`, `reflTransGen_linked_iff`).

Rows may share an identifier.  If they do not, an identifier is live if its row is
(`liveIn_of_distinct`), and the nodes of the graph are the live rows (`nodes_ofRows_of_distinct`).
-/

namespace TriggerFlow.Graph

open Relation

variable {nodes : List Node} {connections : List Connection} {a b id : NodeId}

/-- Some row has the identifier, and no row that has it is deleted. -/
structure LiveIn (nodes : List Node) (id : NodeId) : Prop where
  listed : ∃ n ∈ nodes, n.id = id
  undeleted : ∀ n ∈ nodes, n.id = id → n.deleted = false

/-- A row of `connections` leads from `a` to `b`, and both are `LiveIn nodes`. -/
def Linked (nodes : List Node) (connections : List Connection) (a b : NodeId) : Prop :=
  LiveIn nodes a ∧ LiveIn nodes b ∧ ∃ c ∈ connections, c.source = some a ∧ c.target = b

/-! ### Live identifiers -/

theorem LiveIn.mem_ids (h : LiveIn nodes id) : id ∈ (ofRows nodes connections).ids := by
  obtain ⟨n, hn, hid⟩ := h.listed
  exact mem_ids_ofRows.mpr ⟨n, hn, h.undeleted n hn hid, hid⟩

theorem LiveIn.not_tombstone (h : LiveIn nodes id) : id ∉ tombstones nodes := by
  intro htomb
  obtain ⟨n, hn, hid⟩ := List.mem_map.mp htomb
  obtain ⟨hrow, hdeleted⟩ := List.mem_filter.mp hn
  rw [h.undeleted n hrow hid] at hdeleted
  cases hdeleted

/-- What `ofRows` keeps as a node is `LiveIn` the rows, unless a deleted row shares its identifier.
-/
theorem liveIn_of_mem_ids (h : id ∈ (ofRows nodes connections).ids) (hnew : id ∉ tombstones nodes) :
    LiveIn nodes id := by
  obtain ⟨n, hn, -, hid⟩ := mem_ids_ofRows.mp h
  refine ⟨⟨n, hn, hid⟩, fun m hm hmid => ?_⟩
  rw [← Bool.not_eq_true]
  exact fun hdeleted => hnew (List.mem_map.mpr ⟨m, List.mem_filter.mpr ⟨hm, hdeleted⟩, hmid⟩)

theorem touches_eq_false_iff {ids : List NodeId} {c : Connection} :
    touches ids c = false ↔ c.target ∉ ids ∧ ∀ s, c.source = some s → s ∉ ids := by
  cases hsource : c.source <;> simp [touches, hsource]

/-- A row from the trigger to a live identifier is one of the `startEdges`. -/
theorem mem_startEdges_ofRows_of_live {c : Connection} (hc : c ∈ connections)
    (hsource : c.source = none) (hlive : LiveIn nodes c.target) :
    c ∈ (ofRows nodes connections).startEdges := by
  have htouch : touches (tombstones nodes) c = false :=
    touches_eq_false_iff.mpr ⟨hlive.not_tombstone, by simp [hsource]⟩
  exact List.mem_filter.mpr ⟨mem_connections_ofRows.mpr ⟨hc, htouch⟩, by rw [hsource]; rfl⟩

/-! ### Links and live connections -/

/-- A link in rows is a `LiveEdge` of their graph from a live node; the target of a `LiveEdge` is
live anyway. -/
theorem linked_iff :
    Linked nodes connections a b ↔
      a ∈ (ofRows nodes connections).ids ∧ (ofRows nodes connections).LiveEdge a b := by
  constructor
  · rintro ⟨ha, hb, c, hc, hsource, rfl⟩
    have htouch : touches (tombstones nodes) c = false := by
      refine touches_eq_false_iff.mpr ⟨hb.not_tombstone, fun s hs => ?_⟩
      rw [hsource] at hs
      exact Option.some.inj hs ▸ ha.not_tombstone
    have hedge : c ∈ (ofRows nodes connections).outgoing a :=
      List.mem_filter.mpr ⟨mem_connections_ofRows.mpr ⟨hc, htouch⟩, by simp [hsource]⟩
    exact ⟨ha.mem_ids, ⟨c, hedge, rfl⟩, hb.mem_ids⟩
  · rintro ⟨ha, ⟨c, hedge, rfl⟩, hb⟩
    obtain ⟨hmem, hfrom⟩ := List.mem_filter.mp hedge
    obtain ⟨hc, htouch⟩ := mem_connections_ofRows.mp hmem
    have hsource : c.source = some a := by simpa using hfrom
    obtain ⟨htarget, hstart⟩ := touches_eq_false_iff.mp htouch
    exact ⟨liveIn_of_mem_ids ha (hstart a hsource), liveIn_of_mem_ids hb htarget, c, hc, hsource,
      rfl⟩

/-- Links lead from `a` to `b` exactly if `a` is live and `LiveEdge` leads there. -/
theorem transGen_linked_iff :
    TransGen (Linked nodes connections) a b ↔
      a ∈ (ofRows nodes connections).ids ∧ TransGen (ofRows nodes connections).LiveEdge a b := by
  constructor
  · intro h
    obtain ⟨c, hfirst, -⟩ := TransGen.head'_iff.mp h
    exact ⟨(linked_iff.mp hfirst).1, h.lift id fun _ _ hlink => (linked_iff.mp hlink).2⟩
  · rintro ⟨ha, h⟩
    induction h with
    | single hedge => exact .single (linked_iff.mpr ⟨ha, hedge⟩)
    | @tail b c _ hedge ih =>
      -- what links lead to is live, so that the next connection is a link
      obtain ⟨_, -, hlast⟩ := TransGen.tail'_iff.mp ih
      exact ih.tail (linked_iff.mpr ⟨(linked_iff.mp hlast).2.2, hedge⟩)

theorem reflTransGen_linked_iff (ha : a ∈ (ofRows nodes connections).ids) :
    ReflTransGen (Linked nodes connections) a b ↔
      ReflTransGen (ofRows nodes connections).LiveEdge a b := by
  rw [reflTransGen_iff_eq_or_transGen, reflTransGen_iff_eq_or_transGen, transGen_linked_iff,
    and_iff_right ha]

/-! ### Rows that share no identifier -/

theorem liveIn_of_distinct (distinct : (nodes.map Node.id).Nodup) {n : Node} (hn : n ∈ nodes)
    (hlive : n.deleted = false) : LiveIn nodes n.id := by
  refine ⟨⟨n, hn, rfl⟩, fun m hm hid => ?_⟩
  rwa [List.inj_on_of_nodup_map distinct hm hn hid]

theorem nodes_ofRows_of_distinct (connections : List Connection)
    (distinct : (nodes.map Node.id).Nodup) :
    (ofRows nodes connections).nodes = nodes.filter fun n => !n.deleted := by
  have hlive : (ofRows (nodes.filter fun n => !n.deleted) connections).nodes =
      nodes.filter fun n => !n.deleted :=
    nodes_ofRows_of_nodup connections (fun n hn => by simpa using (List.mem_filter.mp hn).2)
      (distinct.sublist (List.filter_sublist.map Node.id))
  have hfilter : liveNodes (nodes.filter fun n => !n.deleted) = liveNodes nodes := by
    rw [liveNodes, List.filter_filter, liveNodes]
    simp only [Bool.and_self]
  rw [← hlive, ofRows, ofRows, hfilter]

end TriggerFlow.Graph
