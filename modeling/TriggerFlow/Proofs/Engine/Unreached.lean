import TriggerFlow.Proofs.Engine.Causes
import TriggerFlow.Proofs.Engine.Contexts
import TriggerFlow.Proofs.Graph.Links
import TriggerFlow.Proofs.Inspection
/-!
# Nodes in vain

`Graph.unreachable` lists the live nodes that act or decide and to which no links lead from a
connection of the trigger, each once and in ascending order.  It agrees with what runs do: a node is
entered at the end of a path, along a path there are links (`IsPath.mem_reachable`), and so no run
of the graph enters a node that is listed (`unreachable_are_never_entered`).
-/

namespace TriggerFlow

open Relation

namespace Graph

variable {g : Graph} {nodes : List Node} {connections : List Connection} {id : NodeId}
  {path : List NodeId}

/-! ### What is listed -/

theorem mem_unreachable_iff :
    id ∈ g.unreachable ↔
      (∃ n ∈ g.nodes, n.id = id ∧ n.nodeType ≠ .trigger) ∧ id ∉ g.reachable := by
  rw [unreachable, List.mem_map]
  simp only [List.mem_filter, mem_sortedNodes, Bool.and_eq_true, bne_iff_ne, ne_eq,
    Bool.not_eq_true', List.contains_eq_mem, decide_eq_false_iff_not]
  constructor
  · rintro ⟨n, ⟨hn, hkind, hnew⟩, rfl⟩
    exact ⟨⟨n, hn, rfl, hkind⟩, hnew⟩
  · rintro ⟨⟨n, hn, rfl, hkind⟩, hnew⟩
    exact ⟨n, ⟨hn, hkind, hnew⟩, rfl⟩

/-- Sorting distinct live nodes by identifier leaves no two equal ones side by side. -/
theorem pairwise_ids_sortedNodes (distinct : g.ids.Nodup) :
    (g.sortedNodes.map Node.id).Pairwise fun a b => a.toNat < b.toNat := by
  have hsorted : g.sortedNodes.Pairwise fun a b => a.id.le b.id = true := by
    refine List.pairwise_mergeSort ?_ ?_ g.nodes
    · simp only [Uuid.le, decide_eq_true_eq]
      omega
    · simp only [Uuid.le, Bool.or_eq_true, decide_eq_true_eq]
      omega
  have hdistinct : g.sortedNodes.Pairwise fun a b => a.id ≠ b.id :=
    List.pairwise_map.mp ((map_id_sortedNodes_perm g).nodup_iff.mpr distinct)
  refine List.pairwise_map.mpr ((hsorted.and hdistinct).imp ?_)
  rintro a b ⟨hle, hne⟩
  have hle : a.id.toNat ≤ b.id.toNat := by simpa [Uuid.le] using hle
  exact hle.lt_of_ne fun heq => hne (Uuid.eq_of_toNat_eq heq)

theorem pairwise_unreachable (distinct : g.ids.Nodup) :
    g.unreachable.Pairwise fun a b => a.toNat < b.toNat :=
  (pairwise_ids_sortedNodes distinct).sublist (List.filter_sublist.map Node.id)

/-- A live identifier is in `reachable` exactly if `Linked` leads to it from the target of a row of
the trigger. -/
theorem mem_reachable_ofRows_iff (hlive : LiveIn nodes id) :
    id ∈ (ofRows nodes connections).reachable ↔
      ∃ c ∈ connections, c.source = none ∧
        ReflTransGen (Linked nodes connections) c.target id := by
  rw [mem_reachable_iff]
  constructor
  · rintro ⟨c, hstart, htarget, hleads⟩
    obtain ⟨hmem, hsource⟩ := List.mem_filter.mp hstart
    exact ⟨c, (mem_connections_ofRows.mp hmem).1, by simpa using hsource,
      (reflTransGen_linked_iff htarget).mpr hleads⟩
  · rintro ⟨c, hc, hsource, hleads⟩
    -- the target is the identifier itself, or a link starts from it
    have htarget : LiveIn nodes c.target := by
      rcases ReflTransGen.cases_head hleads with heq | ⟨b, hlink, -⟩
      · rwa [heq]
      · exact hlink.1
    exact ⟨c, mem_startEdges_ofRows_of_live hc hsource htarget, htarget.mem_ids,
      (reflTransGen_linked_iff htarget.mem_ids).mp hleads⟩

/-- Where identifiers are distinct, `unreachable` holds the rows that are live, no triggers, and not
led to. -/
theorem mem_unreachable_ofRows_iff (distinct : (nodes.map Node.id).Nodup) :
    id ∈ (ofRows nodes connections).unreachable ↔
      (∃ n ∈ nodes, n.id = id ∧ n.deleted = false ∧ n.nodeType ≠ .trigger) ∧
      ¬ ∃ c ∈ connections, c.source = none ∧
        ReflTransGen (Linked nodes connections) c.target id := by
  rw [mem_unreachable_iff, nodes_ofRows_of_distinct connections distinct]
  simp only [List.mem_filter, Bool.not_eq_true']
  constructor
  · rintro ⟨⟨n, ⟨hn, hlive⟩, rfl, hkind⟩, hnew⟩
    refine ⟨⟨n, hn, rfl, hlive, hkind⟩, ?_⟩
    rwa [← mem_reachable_ofRows_iff (liveIn_of_distinct distinct hn hlive)]
  · rintro ⟨⟨n, hn, rfl, hlive, hkind⟩, hnew⟩
    refine ⟨⟨n, ⟨hn, hlive⟩, rfl, hkind⟩, ?_⟩
    rwa [mem_reachable_ofRows_iff (liveIn_of_distinct distinct hn hlive)]

/-- The end of an `IsPath` is in `reachable`. -/
theorem IsPath.mem_reachable (h : g.IsPath (path ++ [id])) : id ∈ g.reachable := by
  obtain ⟨a, rest, heq⟩ : ∃ a rest, path ++ [id] = a :: rest :=
    List.exists_cons_of_ne_nil (by simp)
  have ha : a ∈ path ++ [id] := by simp [heq]
  obtain ⟨c, hc, rfl⟩ := h.starts a (by simp [heq])
  have hlive := h.live _ ha
  have hreverse : path ++ [id] = (id :: path.reverse).reverse := by simp
  rw [hreverse] at h ha
  exact mem_reachable_iff.mpr ⟨c, hc, hlive, h.leads _ (List.mem_reverse.mp ha)⟩

end Graph

namespace Engine

variable {engine : Engine} {g : Graph}

/-! ### What runs enter -/

/-- A walk enters members of `g.reachable` only. -/
theorem walk_enters_reachable (engine : Engine) (g : Graph) (r : Run) :
    ∃ hs, Run.Reports r (leftBy (engine.walk g r)) hs ∧ ∀ id, Entered hs id → id ∈ g.reachable := by
  rw [walk_eq]
  split
  · exact ⟨[], .refl r, fun id ⟨_, _, hmem⟩ => absurd hmem List.not_mem_nil⟩
  · obtain ⟨hs, hreports, hdeep⟩ := deep_of_walks
      (walks_follow engine g [] Uuid.nil none g.startEdges r) Graph.isPath_nil fun c hc => hc
    refine ⟨hs, hreports, ?_⟩
    rintro id ⟨kind, depth, hmem⟩
    obtain ⟨-, p, hpath, -⟩ := hdeep _ hmem id kind depth rfl
    exact hpath.mem_reachable

/-- Let no two rows of nodes share an identifier.  Then `g.unreachable` is strictly ascending, holds
exactly the live nodes other than triggers that no links lead to from the trigger, and neither a
walk of `g` nor a run of a workflow whose graph is `g` enters any of them. -/
theorem unreachable_are_never_entered {nodes : List Node} (connections : List Connection)
    (distinct : (nodes.map Node.id).Nodup) :
    let g := Graph.ofRows nodes connections
    (g.unreachable.Pairwise fun a b => a.toNat < b.toNat) ∧
    (∀ id, id ∈ g.unreachable ↔
      (∃ n ∈ nodes, n.id = id ∧ n.deleted = false ∧ n.nodeType ≠ .trigger) ∧
      ¬ ∃ c ∈ connections, c.source = none ∧
        ReflTransGen (Graph.Linked nodes connections) c.target id) ∧
    (∀ (engine : Engine) (r : Run), ∃ hs, Run.Reports r (leftBy (engine.walk g r)) hs ∧
      ∀ id ∈ g.unreachable, ¬ Entered hs id) ∧
    ∀ (engine : Engine) (workflow : Workflow) (triggerType : String) (payload : Fields) (w : World),
      Graph.ofTables w.storage.tables workflow.id = g →
      w.Tells (fun h => ∀ id ∈ g.unreachable, ∀ kind depth, h ≠ .nodeEntered id kind depth)
        (leftBy (engine.execute workflow triggerType payload w)) := by
  refine ⟨Graph.pairwise_unreachable (Graph.nodup_ids_ofRows _ _),
    fun id => Graph.mem_unreachable_ofRows_iff distinct, ?_, ?_⟩
  · intro engine r
    obtain ⟨hs, hreports, hreached⟩ := walk_enters_reachable engine _ r
    exact ⟨hs, hreports, fun id hvain hentered =>
      (Graph.mem_unreachable_iff.mp hvain).2 (hreached id hentered)⟩
  · intro engine workflow triggerType payload w hgraph
    refine (tells_paths engine workflow triggerType payload w).mono ?_
    intro x hpaths id hvain kind depth heq
    -- what is entered stands on a path from a start
    obtain ⟨p, hpath⟩ := hpaths id kind depth heq
    rw [hgraph] at hpath
    exact (Graph.mem_unreachable_iff.mp hvain).2 hpath.mem_reachable

/-- A node whose only connection comes from an identifier without a row. -/
def strayNode : Node := .action (Uuid.ofHalves 0 2) Uuid.nil "note"

/-- A store in which the trigger leads to `noteNode` and nothing to `strayNode`. -/
def strayStorage : Storage :=
  { noteStorage with
    tables := { noteStorage.tables with
      nodes := [noteNode, strayNode]
      connections := [.start (Uuid.ofHalves 0 3) Uuid.nil noteNode.id,
        .between (Uuid.ofHalves 0 4) Uuid.nil (Uuid.ofHalves 0 5) strayNode.id] } }

/-- The stray node is listed in `unreachable`, and a run does not enter it. -/
theorem strayNode_is_never_entered :
    strayNode.id ∈ (Graph.ofTables strayStorage.tables noteWorkflow.id).unreachable ∧
      (World.ofStorage strayStorage).Tells
        (fun h => ∀ kind depth, h ≠ .nodeEntered strayNode.id kind depth)
        (leftBy (noteEngine.execute noteWorkflow "event.created" []
          (World.ofStorage strayStorage))) := by
  obtain ⟨-, hlisted, -, hruns⟩ := @unreachable_are_never_entered strayStorage.tables.nodes
    strayStorage.tables.connections (by decide)
  have hstray : strayNode.id ∈
      (Graph.ofTables strayStorage.tables noteWorkflow.id).unreachable := by
    refine (hlisted strayNode.id).mpr ⟨⟨strayNode, .tail _ (.head _), rfl, rfl, nofun⟩, ?_⟩
    rintro ⟨c, hc, hsource, hleads⟩
    have htarget : ∀ c ∈ strayStorage.tables.connections,
        c.source = none → c.target ≠ strayNode.id := by decide
    have hlast : ∀ c ∈ strayStorage.tables.connections, ∀ id ∈ c.source,
        ∀ n ∈ strayStorage.tables.nodes, n.id ≠ id := by decide
    -- no link leads to the stray node, and no connection of the trigger does
    rcases ReflTransGen.cases_tail hleads with heq | ⟨a, -, ha, -, c', hc', hfrom, -⟩
    · exact htarget c hc hsource heq.symm
    · obtain ⟨n, hn, hid⟩ := ha.listed
      exact hlast c' hc' a hfrom n hn hid
  refine ⟨hstray, (hruns noteEngine noteWorkflow "event.created" [] (World.ofStorage strayStorage)
    rfl).mono fun h hnone => hnone _ hstray⟩

end Engine

end TriggerFlow
