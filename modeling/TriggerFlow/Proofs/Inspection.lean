import TriggerFlow.Inspection
import TriggerFlow.Proofs.Graph.Components
/-!
# What the inspection of a graph says

The warnings of a graph stand in four groups, one for each kind of thing that can be wrong.  A graph
without warnings has a start, nodes that can act, no way back and no node in vain
(`Graph.warnings_eq_nil_iff`).  The node that stands for the cycles depends on the listing of the
components, and nothing else does (`Graph.warnings_alike`).
-/

namespace TriggerFlow

/-- A node has no warnings exactly if it is no action node, or its action is known and `validate`
has no objections to its settings. -/
theorem Node.warnings_eq_nil_iff {catalogue : Catalogue} {n : Node} :
    n.warnings catalogue = [] ↔ (n.nodeType = .action →
      ∃ t action, n.actionType = some t ∧ catalogue.action? t = some action ∧
        action.validate n.config = []) := by
  unfold warnings
  by_cases kind : n.nodeType = .action
  · simp only [kind, if_true, true_implies]
    cases typed : n.actionType with
    | none => simp
    | some t => cases known : catalogue.action? t <;> simp [known]
  · simp [kind]

theorem Node.cycle_notMem_warnings (catalogue : Catalogue) (n : Node) (id : NodeId) :
    .cycle id ∉ n.warnings catalogue := by
  unfold warnings
  split
  · split
    · simp
    · split
      · simp
      · simp
  · simp

/-- Two warnings are the same, or both name a node on a cycle of `g`. -/
inductive Warning.Alike (g : Graph) : Warning → Warning → Prop
  | same (warning : Warning) : Alike g warning warning
  | cycle {a b : NodeId} (ha : Relation.TransGen g.LiveEdge a a)
      (hb : Relation.TransGen g.LiveEdge b b) : Alike g (.cycle a) (.cycle b)

namespace Graph

variable {g : Graph} {catalogue : Catalogue} {components components' : List (List Place)}

theorem mem_sortedNodes {n : Node} : n ∈ g.sortedNodes ↔ n ∈ g.nodes :=
  (List.mergeSort_perm g.nodes fun a b => a.id.le b.id).mem_iff

/-! ### What is among the warnings -/

theorem infix_flatMap_of_mem {α β : Type} {f : α → List β} {a : α} {l : List α} (h : a ∈ l) :
    f a <:+: l.flatMap f := by
  obtain ⟨before, after, rfl⟩ := List.append_of_mem h
  refine ⟨before.flatMap f, after.flatMap f, ?_⟩
  rw [List.flatMap_append, List.flatMap_cons, List.append_assoc]

theorem noStartNode_mem_warnings (catalogue : Catalogue) (components : List (List Place))
    (h : g.startEdges = []) :
    .noStartNode ∈ g.warnings catalogue components := by
  simp [warnings, h]

/-- The warnings of a live node stand together. -/
theorem warnings_node_infix (catalogue : Catalogue) (components : List (List Place)) {n : Node}
    (h : g.node? n.id = some n) :
    n.warnings catalogue <:+: g.warnings catalogue components := by
  have hmem : n ∈ g.sortedNodes := mem_sortedNodes.mpr (List.mem_of_find?_eq_some h)
  have hinfix : n.warnings catalogue <:+: g.sortedNodes.flatMap (Node.warnings catalogue) :=
    infix_flatMap_of_mem hmem
  refine hinfix.trans ⟨if g.startEdges.isEmpty then [.noStartNode] else [],
    ((g.findCycle components).map Warning.cycle).toList ++ g.unreachable.map .unreachable, ?_⟩
  rw [warnings, List.append_assoc _ _ (g.unreachable.map _)]

/-- A warning of a cycle names the answer of `findCycle`, and nothing else. -/
theorem cycle_mem_warnings_iff {id : NodeId} :
    .cycle id ∈ g.warnings catalogue components ↔ g.findCycle components = some id := by
  have hnodes : Warning.cycle id ∉ g.sortedNodes.flatMap (Node.warnings catalogue) := by
    rw [List.mem_flatMap]
    rintro ⟨n, -, hn⟩
    exact Node.cycle_notMem_warnings catalogue n id hn
  rw [warnings, List.mem_append, List.mem_append, List.mem_append]
  simp [hnodes]

theorem cycle_mem_warnings (catalogue : Catalogue) (h : g.AreComponents components)
    (distinct : g.ids.Nodup) {x : NodeId} (hcycle : Relation.TransGen g.LiveEdge x x) :
    ∃ id, Relation.TransGen g.LiveEdge id id ∧ .cycle id ∈ g.warnings catalogue components := by
  cases hfound : g.findCycle components with
  | none => exact absurd hcycle ((h.findCycle_eq_none_iff distinct).mp hfound x)
  | some id => exact ⟨id, h.sound distinct hfound, cycle_mem_warnings_iff.mpr hfound⟩

/-! ### Different listings of the components -/

/-- Whatever the listings, the warnings are `Warning.Alike` one by one: only the node that stands
for a cycle depends on how the components are listed. -/
theorem warnings_alike (catalogue : Catalogue) (h : g.AreComponents components)
    (h' : g.AreComponents components') (distinct : g.ids.Nodup) :
    List.Forall₂ (Warning.Alike g) (g.warnings catalogue components)
      (g.warnings catalogue components') := by
  have hsame (warnings : List Warning) : List.Forall₂ (Warning.Alike g) warnings warnings :=
    List.forall₂_same.mpr fun warning _ => .same warning
  have hcycle : List.Forall₂ (Warning.Alike g) ((g.findCycle components).map Warning.cycle).toList
      ((g.findCycle components').map Warning.cycle).toList := by
    cases hfound : g.findCycle components with
    | none =>
      have hacyclic := (h.findCycle_eq_none_iff distinct).mp hfound
      rw [(h'.findCycle_eq_none_iff distinct).mpr hacyclic]
      exact .nil
    | some a =>
      have ha := h.sound distinct hfound
      cases hfound' : g.findCycle components' with
      | none => exact absurd ha ((h'.findCycle_eq_none_iff distinct).mp hfound' a)
      | some b => exact .cons (.cycle ha (h'.sound distinct hfound')) .nil
  exact List.rel_append (List.rel_append (hsame _) hcycle) (hsame _)

/-- Of two nodes on cycles, either is named in the warnings for some listing of the components. -/
theorem warnings_componentsFrom_ne (catalogue : Catalogue) (distinct : g.ids.Nodup) {a b : NodeId}
    (hne : a ≠ b) (ha : Relation.TransGen g.LiveEdge a a) (hb : Relation.TransGen g.LiveEdge b b) :
    g.warnings catalogue (g.componentsFrom a) ≠ g.warnings catalogue (g.componentsFrom b) := by
  intro hsame
  have hnamed : .cycle a ∈ g.warnings catalogue (g.componentsFrom a) :=
    cycle_mem_warnings_iff.mpr (findCycle_componentsFrom distinct ha)
  rw [hsame, cycle_mem_warnings_iff, findCycle_componentsFrom distinct hb] at hnamed
  exact hne (Option.some.inj hnamed).symm

/-! ### Graphs without warnings -/

/-- A node is in `reachable` exactly if `LiveEdge` leads to it from the live target of a connection
of the trigger. -/
theorem mem_reachable_iff {id : NodeId} :
    id ∈ g.reachable ↔
      ∃ c ∈ g.startEdges, c.target ∈ g.ids ∧ Relation.ReflTransGen g.LiveEdge c.target id := by
  rw [reachable, mem_closure_iff]
  simp only [List.mem_map, exists_exists_and_eq_and]

theorem unreachable_eq_nil_iff :
    g.unreachable = [] ↔ ∀ n ∈ g.nodes, n.nodeType ≠ .trigger → n.id ∈ g.reachable := by
  rw [unreachable, List.map_eq_nil_iff, List.filter_eq_nil_iff]
  simp only [mem_sortedNodes, Bool.and_eq_true, bne_iff_ne, ne_eq, Bool.not_eq_true',
    List.contains_eq_mem, decide_eq_false_iff_not, not_and, not_not]

theorem warnings_eq_nil_iff (h : g.AreComponents components) (distinct : g.ids.Nodup) :
    g.warnings catalogue components = [] ↔ g.startEdges ≠ [] ∧
      (∀ n ∈ g.nodes, n.warnings catalogue = []) ∧
      (∀ id, ¬ Relation.TransGen g.LiveEdge id id) ∧
      ∀ n ∈ g.nodes, n.nodeType ≠ .trigger → n.id ∈ g.reachable := by
  have hstart : (if g.startEdges.isEmpty then [Warning.noStartNode] else []) = [] ↔
      g.startEdges ≠ [] := by
    cases g.startEdges <;> simp
  have hcycle : ((g.findCycle components).map Warning.cycle).toList = [] ↔
      ∀ id, ¬ Relation.TransGen g.LiveEdge id id := by
    rw [← h.findCycle_eq_none_iff distinct]
    cases g.findCycle components <;> simp
  simp only [warnings, List.append_eq_nil_iff, List.flatMap_eq_nil_iff, List.map_eq_nil_iff,
    mem_sortedNodes, hstart, hcycle, unreachable_eq_nil_iff, and_assoc]

end Graph

end TriggerFlow
