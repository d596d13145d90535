import TriggerFlow.Graph
/-!
# The order of connections

A graph lists the connections that leave a place `ByPriority`: in ascending order of priority, and
those of equal priority in the order of their rows (`byPriority_startEdges`,
`byPriority_outgoing`).
-/

namespace TriggerFlow

/-- The list `ordered` is `rows` sorted by priority, and the sorting is stable: of each priority `p`
both have the same sublist. -/
structure ByPriority (rows ordered : List Connection) : Prop where
  ascending : ordered.Pairwise fun a b => a.priority.toInt ≤ b.priority.toInt
  stable : ∀ p, ordered.filter (fun c => c.priority = p) = rows.filter fun c => c.priority = p

theorem ByPriority.filter {rows ordered : List Connection} (h : ByPriority rows ordered)
    (q : Connection → Bool) : ByPriority (rows.filter q) (ordered.filter q) := by
  refine ⟨h.ascending.filter q, ?_⟩
  intro p
  have hcomm (l : List Connection) :
      (l.filter q).filter (fun c => c.priority = p)
        = (l.filter fun c => c.priority = p).filter q := by
    rw [List.filter_filter, List.filter_filter]
    exact List.filter_congr fun c _ => Bool.and_comm ..
  rw [hcomm, hcomm, h.stable]

theorem byPriority_mergeSort (rows : List Connection) :
    ByPriority rows (rows.mergeSort fun a b => decide (a.priority.toInt ≤ b.priority.toInt)) := by
  have htrans (a b c : Connection) : decide (a.priority.toInt ≤ b.priority.toInt) = true →
      decide (b.priority.toInt ≤ c.priority.toInt) = true →
      decide (a.priority.toInt ≤ c.priority.toInt) = true := by
    simp only [decide_eq_true_eq]
    omega
  have htotal (a b : Connection) : (decide (a.priority.toInt ≤ b.priority.toInt)
      || decide (b.priority.toInt ≤ a.priority.toInt)) = true := by
    simp only [Bool.or_eq_true, decide_eq_true_eq]
    omega
  have hperm := List.mergeSort_perm rows fun a b => decide (a.priority.toInt ≤ b.priority.toInt)
  refine ⟨?_, ?_⟩
  · exact (List.pairwise_mergeSort htrans htotal rows).imp fun h => by simpa using h
  · intro p
    -- rows of one priority are in order already, so that sorting keeps them as they are
    have hsame : (rows.filter fun c => c.priority = p).Pairwise fun a b =>
        decide (a.priority.toInt ≤ b.priority.toInt) = true := by
      apply List.pairwise_of_forall_mem_list
      intro a ha b hb
      have ha : a.priority = p := by simpa using (List.mem_filter.mp ha).2
      have hb : b.priority = p := by simpa using (List.mem_filter.mp hb).2
      simp [ha, hb]
    have hsub := (List.sublist_mergeSort htrans htotal hsame List.filter_sublist).filter
      fun c => decide (c.priority = p)
    rw [List.filter_filter] at hsub
    simp only [Bool.and_self] at hsub
    exact (hsub.eq_of_length (hperm.filter _).length_eq.symm).symm

namespace Graph

/-- What is left of `listConnections workflow` once the connections that touch a tombstone are
dropped. -/
def usableRows (t : Tables) (workflow : WorkflowId) : List Connection :=
  (t.listConnections workflow).filter fun c =>
    !touches (tombstones (t.listNodes workflow true)) c

theorem byPriority_connections (t : Tables) (workflow : WorkflowId) :
    ByPriority (usableRows t workflow) (ofTables t workflow).connections :=
  byPriority_mergeSort _

theorem byPriority_startEdges (t : Tables) (workflow : WorkflowId) :
    ByPriority ((usableRows t workflow).filter fun c => c.source.isNone)
      (ofTables t workflow).startEdges :=
  (byPriority_connections t workflow).filter _

theorem byPriority_outgoing (t : Tables) (workflow : WorkflowId) (id : NodeId) :
    ByPriority ((usableRows t workflow).filter fun c => c.source == some id)
      ((ofTables t workflow).outgoing id) :=
  (byPriority_connections t workflow).filter _

end Graph

end TriggerFlow
