import Mathlib.Logic.Relation
import TriggerFlow.Proofs.Graph.Paths
/-!
# Ways from the trigger

A way (`Graph.IsWay`) goes from the trigger along connections, whatever they lead to: unlike an
`IsPath` it may come back to a node, and the nodes on it need not be live.  Its innermost node comes
first.  The nodes that are `Reached` are those to which a way leads (`reached_iff`).

A way goes on along whatever leads on from its end (`IsWay.extend`), and from each of its nodes
`g.Edge` leads to its end (`IsWay.leads`).
-/

namespace TriggerFlow.Graph

open Relation

variable {g : Graph} {a b id : NodeId} {path : List NodeId}

/-- Every node of the list is the target of a connection of `edgesBelow` the rest. -/
inductive IsWay (g : Graph) : List NodeId → Prop
  | nil : IsWay g []
  | cons {path c} (way : IsWay g path) (edge : c ∈ g.edgesBelow path) : IsWay g (c.target :: path)

/-- The nodes that connections lead to from the trigger, live or not: the least set that holds the
targets of `startEdges` and is closed under `outgoing`. -/
inductive Reached (g : Graph) : NodeId → Prop
  | start {c} (edge : c ∈ g.startEdges) : Reached g c.target
  | onward {id c} (reached : Reached g id) (edge : c ∈ g.outgoing id) : Reached g c.target

theorem reached_iff : g.Reached id ↔ ∃ path, g.IsWay (id :: path) := by
  constructor
  · intro h
    induction h with
    | start edge => exact ⟨[], .cons .nil edge⟩
    | onward reached edge ih =>
      obtain ⟨path, hway⟩ := ih
      exact ⟨_, hway.cons edge⟩
  · rintro ⟨path, hway⟩
    induction path generalizing id with
    | nil =>
      cases hway with
      | cons way edge => exact .start edge
    | cons a path ih =>
      cases hway with
      | cons way edge => exact .onward (ih way) edge

/-- From every node of a way connections lead to its end `a`. -/
theorem IsWay.leads (h : g.IsWay (a :: path)) : ∀ x ∈ path, TransGen g.Edge x a := by
  induction path generalizing a with
  | nil => simp
  | cons b path ih =>
    cases h with
    | @cons _ c way edge =>
      have hlast : g.Edge b c.target := ⟨c, edge, rfl⟩
      intro x hx
      rcases List.mem_cons.mp hx with rfl | hx
      · exact .single hlast
      · exact (ih way x hx).tail hlast

/-- A way to `a` goes on to whatever `TransGen g.Edge` leads to from `a`, with the nodes `more` in
between. -/
theorem IsWay.extend (h : g.IsWay (a :: path)) (hleads : TransGen g.Edge a b) :
    ∃ more, g.IsWay (b :: (more ++ a :: path)) := by
  induction hleads with
  | single hedge =>
    obtain ⟨c, hc, rfl⟩ := hedge
    exact ⟨[], h.cons hc⟩
  | @tail d e _ hedge ih =>
    obtain ⟨more, hway⟩ := ih
    obtain ⟨c, hc, rfl⟩ := hedge
    exact ⟨d :: more, hway.cons hc⟩

end TriggerFlow.Graph
