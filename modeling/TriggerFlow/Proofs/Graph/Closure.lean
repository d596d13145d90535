import Mathlib.Logic.Relation
import TriggerFlow.Graph.Reach
import TriggerFlow.Proofs.Graph.Paths
/-!
# What is reached

`Graph.closure` collects exactly the live nodes to which connections between live nodes lead,
`y ∈ g.closure [] (g.successors x) ↔ TransGen g.LiveEdge x y` (`mem_closure_successors_iff`), and so
`g.isOnCycle id` says whether they lead from `id` back to it (`isOnCycle_iff`).  A path that comes
back to one of its nodes has found such a node (`IsPath.cycle`).
-/

namespace TriggerFlow.Graph

open Relation

variable {g : Graph} {seen todo path : List NodeId} {id x y : NodeId}

/-- A connection of `g.outgoing a` leads to `b`, and `b` is live. -/
def LiveEdge (g : Graph) (a b : NodeId) : Prop := g.Edge a b ∧ b ∈ g.ids

/-- Whatever `LiveEdge` leads to is live, since its last step is. -/
theorem mem_ids_of_transGen (h : TransGen g.LiveEdge x y) : y ∈ g.ids := by
  obtain ⟨_, -, hlast⟩ := TransGen.tail'_iff.mp h
  exact hlast.2

theorem mem_successors_iff : y ∈ g.successors x ↔ g.Edge x y := by
  rw [successors, List.mem_map]
  rfl

/-! ### The closure -/

theorem mem_closure_of_mem_seen (h : x ∈ seen) : x ∈ g.closure seen todo := by
  fun_induction g.closure seen todo with
  | case1 => exact h
  | case2 seen id rest hid ih => exact ih (List.mem_cons_of_mem _ h)
  | case3 seen id rest hid ih => exact ih h

theorem mem_closure_of_mem_todo (h : x ∈ todo) (hlive : x ∈ g.ids) :
    x ∈ g.closure seen todo := by
  fun_induction g.closure seen todo with
  | case1 => simp at h
  | case2 seen id rest hid ih =>
    rcases List.mem_cons.mp h with rfl | h
    · exact mem_closure_of_mem_seen (List.mem_cons_self ..)
    · exact ih (List.mem_append_right _ h)
  | case3 seen id rest hid ih =>
    rcases List.mem_cons.mp h with rfl | h
    · exact mem_closure_of_mem_seen (not_not.mp fun hnew => hid ⟨hlive, hnew⟩)
    · exact ih h

/-- The invariant of the worklist: every successor of `seen` is in `seen` or in `todo`.  It holds at
the end, when `todo` is empty and `seen` is the closure. -/
theorem closure_closed (hseen : ∀ x ∈ seen, ∀ y, g.LiveEdge x y → y ∈ seen ∨ y ∈ todo) :
    ∀ x ∈ g.closure seen todo, ∀ y, g.LiveEdge x y → y ∈ g.closure seen todo := by
  -- what a seen node leads to is seen or still to do, and in the end nothing is to do
  fun_induction g.closure seen todo with
  | case1 =>
    intro x hx y hedge
    exact (hseen x hx y hedge).resolve_right (by simp)
  | case2 seen id rest hid ih =>
    apply ih
    intro x hx y hedge
    rcases List.mem_cons.mp hx with rfl | hx
    · exact .inr (List.mem_append_left _ (mem_successors_iff.mpr hedge.1))
    rcases hseen x hx y hedge with hy | hy
    · exact .inl (List.mem_cons_of_mem _ hy)
    rcases List.mem_cons.mp hy with rfl | hy
    · exact .inl (List.mem_cons_self ..)
    · exact .inr (List.mem_append_right _ hy)
  | case3 seen id rest hid ih =>
    apply ih
    intro x hx y hedge
    rcases hseen x hx y hedge with hy | hy
    · exact .inl hy
    rcases List.mem_cons.mp hy with rfl | hy
    · exact .inl (not_not.mp fun hnew => hid ⟨hedge.2, hnew⟩)
    · exact .inr hy

/-- Soundness of the worklist: what is in `g.closure seen todo` was in `seen`, or can be reached
from a live node of `todo`. -/
theorem leads_of_mem_closure (h : x ∈ g.closure seen todo) :
    x ∈ seen ∨ ∃ a ∈ todo, a ∈ g.ids ∧ ReflTransGen g.LiveEdge a x := by
  fun_induction g.closure seen todo with
  | case1 => exact .inl h
  | case2 seen id rest hid ih =>
    rcases ih h with hx | ⟨a, ha, hlive, hleads⟩
    · rcases List.mem_cons.mp hx with rfl | hx
      · exact .inr ⟨x, List.mem_cons_self .., hid.1, .refl⟩
      · exact .inl hx
    rcases List.mem_append.mp ha with ha | ha
    · exact .inr ⟨id, List.mem_cons_self .., hid.1,
        .head ⟨mem_successors_iff.mp ha, hlive⟩ hleads⟩
    · exact .inr ⟨a, List.mem_cons_of_mem _ ha, hlive, hleads⟩
  | case3 seen id rest hid ih =>
    rcases ih h with hx | ⟨a, ha, hlive, hleads⟩
    · exact .inl hx
    · exact .inr ⟨a, List.mem_cons_of_mem _ ha, hlive, hleads⟩

theorem mem_closure_iff :
    x ∈ g.closure [] todo ↔ ∃ a ∈ todo, a ∈ g.ids ∧ ReflTransGen g.LiveEdge a x := by
  constructor
  · intro h
    exact (leads_of_mem_closure h).resolve_left (by simp)
  · rintro ⟨a, ha, hlive, hleads⟩
    induction hleads with
    | refl => exact mem_closure_of_mem_todo ha hlive
    | tail _ hedge ih => exact closure_closed (by simp) _ ih _ hedge

/-! ### Cycles -/

/-- The closure of the successors of `x` is what `x` leads to in at least one step. -/
theorem mem_closure_successors_iff :
    y ∈ g.closure [] (g.successors x) ↔ TransGen g.LiveEdge x y := by
  rw [mem_closure_iff, TransGen.head'_iff]
  constructor
  · rintro ⟨a, ha, hlive, hleads⟩
    exact ⟨a, ⟨mem_successors_iff.mp ha, hlive⟩, hleads⟩
  · rintro ⟨a, ⟨hedge, hlive⟩, hleads⟩
    exact ⟨a, mem_successors_iff.mpr hedge, hlive, hleads⟩

theorem isOnCycle_iff : g.isOnCycle x = true ↔ TransGen g.LiveEdge x x := by
  rw [isOnCycle, List.contains_iff_mem, mem_closure_successors_iff]

theorem map_id_sortedNodes_perm (g : Graph) : (g.sortedNodes.map Node.id).Perm g.ids :=
  (List.mergeSort_perm g.nodes fun a b => a.id.le b.id).map Node.id

/-! ### Paths that come back -/

/-- From every node of a path `LiveEdge` leads to its innermost node `a`. -/
theorem IsPath.leads {a : NodeId} {rest : List NodeId} (h : g.IsPath (a :: rest).reverse) :
    ∀ x ∈ a :: rest, ReflTransGen g.LiveEdge x a := by
  -- from the innermost node outwards; of the rest it is enough that it is linked and live
  have hlive := h.live
  have hlinked := h.linked
  clear h
  induction rest generalizing a with
  | nil =>
    intro x hx
    rw [List.mem_singleton.mp hx]
  | cons b rest ih =>
    rw [List.reverse_cons] at hlinked
    obtain ⟨hlinked, -, hlast⟩ := List.isChain_append.mp hlinked
    have hlast : g.Edge b a := hlast b (by simp) a (by simp)
    intro x hx
    rcases List.mem_cons.mp hx with rfl | hx
    · rfl
    · refine (ih (fun id hid => hlive id ?_) hlinked x hx).tail ⟨hlast, hlive a (by simp)⟩
      rw [List.reverse_cons]
      exact List.mem_append_left _ hid

/-- A connection below a path that leads back to one of its nodes closes a cycle through its target.
-/
theorem IsPath.cycle {c : Connection} (h : g.IsPath path.reverse) (hc : c ∈ g.edgesBelow path)
    (hback : c.target ∈ path) : TransGen g.LiveEdge c.target c.target := by
  cases path with
  | nil => simp at hback
  | cons a rest =>
    exact .tail' (h.leads _ hback) ⟨⟨c, hc, rfl⟩, h.live _ (List.mem_reverse.mpr hback)⟩

end TriggerFlow.Graph
