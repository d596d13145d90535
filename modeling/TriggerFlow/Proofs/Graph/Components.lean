import Mathlib.Data.List.Find
import TriggerFlow.Graph.Components
import TriggerFlow.Proofs.Graph.Links
/-!
# Cycles and components

`g.findCycle components` looks for a cycle in the strongly connected components of a graph
(`AreComponents`), which come in any order, as do the places within them.

* `AreComponents.sound`: `findCycle` answers with a node on a cycle.
* `AreComponents.findCycle_eq_none_iff`: it answers with a node if there is a cycle.
* `findCycle_componentsFrom`: for every node on a cycle there is a listing of the components for
  which it answers with that node, so that no more can be said of its answer.

A component is a cycle if it has several places or its only place leads to itself (`isCycle_iff`).
The trigger is a component by itself, since nothing leads to it (`AreComponents.trigger_mem`).
-/

namespace TriggerFlow.Graph

open Relation

/-- Each of two places leads to the other: `ReflTransGen g.Leads` both ways. -/
def Mutual (g : Graph) (a b : Place) : Prop :=
  ReflTransGen g.Leads a b ∧ ReflTransGen g.Leads b a

/-- The lists of `components` are the strongly connected components of the graph, classes of
`Mutual`, in any order. -/
structure AreComponents (g : Graph) (components : List (List Place)) : Prop where
  partition : components.flatten.Perm g.places
  connected : ∀ component ∈ components, ∀ a ∈ component, ∀ b, b ∈ component ↔ g.Mutual a b

variable {g : Graph} {a b : NodeId} {p q first : Place} {others : List Place}
  {component : List Place} {components : List (List Place)} {ids : List NodeId}

/-! ### From place to place -/

theorem leads_some_iff : g.Leads (some a) (some b) ↔ a ∈ g.ids ∧ g.LiveEdge a b := by
  simp only [Leads, places, leaving, LiveEdge, Edge, List.mem_cons, reduceCtorEq, false_or,
    List.mem_map, Option.some.injEq, exists_eq_right, and_comm (a := b ∈ g.ids)]

theorem not_leads_none : ¬ g.Leads p none := by
  rintro ⟨-, -, c, -, hc⟩
  cases hc

/-- Nothing leads to the trigger, `none`. -/
theorem not_transGen_leads_none : ¬ TransGen g.Leads p none := by
  intro h
  obtain ⟨_, -, hlast⟩ := TransGen.tail'_iff.mp h
  exact not_leads_none hlast

/-- Between nodes, `g.Leads` leads past nodes only, so that it is `LiveEdge`. -/
theorem transGen_leads_iff :
    TransGen g.Leads (some a) (some b) ↔ a ∈ g.ids ∧ TransGen g.LiveEdge a b := by
  constructor
  · intro h
    generalize hp : some a = p at h
    generalize hq : some b = q at h
    induction h generalizing b with
    | single hedge =>
      subst hp hq
      obtain ⟨ha, hedge⟩ := leads_some_iff.mp hedge
      exact ⟨ha, .single hedge⟩
    | @tail q _ hbefore hedge ih =>
      subst hq
      cases q with
      | none => exact absurd hbefore not_transGen_leads_none
      | some c =>
        obtain ⟨ha, hleads⟩ := ih rfl
        exact ⟨ha, hleads.tail (leads_some_iff.mp hedge).2⟩
  · rintro ⟨ha, h⟩
    induction h with
    | single hedge => exact .single (leads_some_iff.mpr ⟨ha, hedge⟩)
    | tail hbefore hedge ih =>
      exact ih.tail (leads_some_iff.mpr ⟨mem_ids_of_transGen hbefore, hedge⟩)

theorem transGen_leads_self_iff :
    TransGen g.Leads (some a) (some a) ↔ TransGen g.LiveEdge a a := by
  rw [transGen_leads_iff, and_iff_right_iff_imp]
  exact mem_ids_of_transGen

theorem Mutual.symm (h : g.Mutual p q) : g.Mutual q p := ⟨h.2, h.1⟩

theorem Mutual.trans {x : Place} (h : g.Mutual p q) (h' : g.Mutual q x) : g.Mutual p x :=
  ⟨h.1.trans h'.1, h'.2.trans h.2⟩

theorem mutual_refl (g : Graph) (p : Place) : g.Mutual p p := ⟨.refl, .refl⟩

theorem mutual_none_iff : g.Mutual none p ↔ p = none := by
  constructor
  · rintro ⟨-, hback⟩
    rcases reflTransGen_iff_eq_or_transGen.mp hback with heq | htrans
    · exact heq.symm
    · exact absurd htrans not_transGen_leads_none
  · rintro rfl
    exact mutual_refl g none

theorem transGen_of_mutual_of_ne (h : g.Mutual p q) (hne : p ≠ q) : TransGen g.Leads p p := by
  rcases reflTransGen_iff_eq_or_transGen.mp h.1 with heq | htrans
  · exact absurd heq.symm hne
  · exact htrans.trans_left h.2

/-- What is `Mutual` with a node on a cycle is on a cycle. -/
theorem transGen_of_mutual (h : g.Mutual p q) (hcycle : TransGen g.Leads q q) :
    TransGen g.Leads p p :=
  (TransGen.trans_right h.1 hcycle).trans_left h.2

/-! ### One component -/

/-- A component `first :: others` is a cycle, `TransGen g.Leads first first`, exactly if it has
several places or its only place leads to itself. -/
theorem isCycle_iff (nodup : (first :: others).Nodup)
    (connected : ∀ p, p ∈ first :: others ↔ g.Mutual first p) :
    others ≠ [] ∨ g.Leads first first ↔ TransGen g.Leads first first := by
  constructor
  · rintro (hmore | hloop)
    · obtain ⟨q, hq⟩ := List.exists_mem_of_ne_nil others hmore
      have hne : first ≠ q := fun heq => (List.nodup_cons.mp nodup).1 (heq ▸ hq)
      exact transGen_of_mutual_of_ne ((connected q).mp (List.mem_cons_of_mem _ hq)) hne
    · exact .single hloop
  · intro hcycle
    by_contra hnone
    obtain ⟨hsingle, hloop⟩ := not_or.mp hnone
    -- the first place on the cycle is in the component, which has none but the head
    obtain ⟨q, hnext, hback⟩ := TransGen.head'_iff.mp hcycle
    have hq := (connected q).mpr ⟨.single hnext, hback⟩
    rw [not_ne_iff.mp hsingle, List.mem_singleton] at hq
    exact hloop (hq ▸ hnext)

/-- The answer of `cyclic?` for a component with the node `a` at its head is `a` if it is on a
cycle, and `none` otherwise. -/
theorem cyclic?_some (nodup : (some a :: others).Nodup)
    (connected : ∀ p, p ∈ some a :: others ↔ g.Mutual (some a) p) :
    g.cyclic? (some a :: others) = if g.isOnCycle a then some a else none := by
  have hcycle : others ≠ [] ∨ g.Leads (some a) (some a) ↔ g.isOnCycle a = true := by
    rw [isCycle_iff nodup connected, transGen_leads_self_iff, isOnCycle_iff]
  simp only [cyclic?, hcycle]

namespace AreComponents

theorem nodup (h : g.AreComponents components) (distinct : g.ids.Nodup)
    (hmem : component ∈ components) : component.Nodup := by
  have hplaces : g.places.Nodup :=
    List.nodup_cons.mpr ⟨by simp, distinct.map fun _ _ => Option.some.inj⟩
  exact (List.nodup_flatten.mp (h.partition.nodup_iff.mpr hplaces)).1 component hmem

/-- The list `[none]` is a component: the trigger is by itself. -/
theorem trigger_mem (h : g.AreComponents components) (distinct : g.ids.Nodup) :
    [none] ∈ components := by
  obtain ⟨component, hmem, htrigger⟩ :=
    List.mem_flatten.mp (h.partition.mem_iff.mpr (List.mem_cons_self : none ∈ g.places))
  have hall : ∀ p ∈ component, p = none := fun p hp =>
    mutual_none_iff.mp ((h.connected component hmem none htrigger p).mp hp)
  -- a list without repetitions of which all are the trigger
  have hsingle : component = [none] := by
    refine List.perm_singleton.mp ((List.perm_ext_iff_of_nodup (h.nodup distinct hmem)
      (List.nodup_singleton _)).mpr fun p => ?_)
    rw [List.mem_singleton]
    exact ⟨hall p, fun hp => hp ▸ htrigger⟩
  exact hsingle ▸ hmem

/-- The head of a component is on a cycle, `TransGen g.Leads first first`, exactly if the component
has other members or the head leads to itself. -/
theorem head_isCycle_iff (h : g.AreComponents components) (distinct : g.ids.Nodup)
    (hmem : first :: others ∈ components) :
    others ≠ [] ∨ g.Leads first first ↔ TransGen g.Leads first first :=
  isCycle_iff (h.nodup distinct hmem) (h.connected _ hmem first List.mem_cons_self)

/-- Soundness: what `findCycle` finds is on a cycle. -/
theorem sound (h : g.AreComponents components) (distinct : g.ids.Nodup)
    (hfound : g.findCycle components = some a) : TransGen g.LiveEdge a a := by
  obtain ⟨component, hmem, hcyclic⟩ := List.exists_of_findSome?_eq_some hfound
  cases component with
  | nil => cases hcyclic
  | cons first others =>
    rw [cyclic?] at hcyclic
    split at hcyclic
    · next hcycle =>
      subst hcyclic
      exact transGen_leads_self_iff.mp ((h.head_isCycle_iff distinct hmem).mp hcycle)
    · cases hcyclic

/-- Completeness: if some node is on a cycle, `findCycle` finds one. -/
theorem complete (h : g.AreComponents components) (distinct : g.ids.Nodup)
    (hnone : g.findCycle components = none) : ¬ TransGen g.LiveEdge a a := by
  intro hcycle
  have hcycle := transGen_leads_self_iff.mpr hcycle
  have hplace : some a ∈ g.places := (TransGen.head'_iff.mp hcycle).choose_spec.1.1
  obtain ⟨component, hmem, ha⟩ := List.mem_flatten.mp (h.partition.mem_iff.mpr hplace)
  have hcyclic := List.findSome?_eq_none_iff.mp hnone component hmem
  cases component with
  | nil => cases ha
  | cons first others =>
    have hmutual : g.Mutual first (some a) :=
      (h.connected _ hmem first List.mem_cons_self _).mp ha
    have hhead : others ≠ [] ∨ g.Leads first first :=
      (h.head_isCycle_iff distinct hmem).mpr (transGen_of_mutual hmutual hcycle)
    rw [cyclic?, if_pos hhead] at hcyclic
    -- a component of the trigger has no node in it
    subst hcyclic
    cases mutual_none_iff.mp hmutual

/-- `findCycle` is `none` if and only if no live node leads back to itself. -/
theorem findCycle_eq_none_iff (h : g.AreComponents components) (distinct : g.ids.Nodup) :
    g.findCycle components = none ↔ ∀ id, ¬ TransGen g.LiveEdge id id := by
  constructor
  · exact fun hnone _ => h.complete distinct hnone
  · intro hacyclic
    cases hfound : g.findCycle components with
    | none => rfl
    | some a => exact absurd (h.sound distinct hfound) (hacyclic a)

end AreComponents

/-! ### Components of nodes -/

theorem akin_iff : g.akin a b = true ↔ g.Mutual (some a) (some b) := by
  have hleads : g.akin a b = true ↔
      a = b ∨ TransGen g.LiveEdge a b ∧ TransGen g.LiveEdge b a := by
    simp only [akin, Bool.or_eq_true, beq_iff_eq, Bool.and_eq_true, List.contains_iff_mem,
      mem_closure_successors_iff]
  rw [hleads]
  constructor
  · rintro (rfl | ⟨hto, hback⟩)
    · exact mutual_refl g _
    · -- both are live, as each is led to by the other
      have ha := mem_ids_of_transGen hback
      have hb := mem_ids_of_transGen hto
      exact ⟨(transGen_leads_iff.mpr ⟨ha, hto⟩).to_reflTransGen,
        (transGen_leads_iff.mpr ⟨hb, hback⟩).to_reflTransGen⟩
  · rintro ⟨hto, hback⟩
    rcases reflTransGen_iff_eq_or_transGen.mp hto with heq | hto
    · exact .inl (Option.some.inj heq).symm
    rcases reflTransGen_iff_eq_or_transGen.mp hback with heq | hback
    · exact .inl (Option.some.inj heq)
    · exact .inr ⟨(transGen_leads_iff.mp hto).2, (transGen_leads_iff.mp hback).2⟩

/-- What is `akin` to a node on a cycle is on a cycle. -/
theorem isOnCycle_of_akin (hakin : g.akin a b = true) (hcycle : g.isOnCycle b = true) :
    g.isOnCycle a = true := by
  rw [isOnCycle_iff, ← transGen_leads_self_iff] at hcycle ⊢
  exact transGen_of_mutual (akin_iff.mp hakin) hcycle

/-- Some nodes are closed if they come with all that is `akin` to them. -/
def Closed (g : Graph) (ids : List NodeId) : Prop := ∀ a ∈ ids, ∀ b, g.akin a b = true → b ∈ ids

theorem mem_strangers_iff : b ∈ g.strangers a ids ↔ b ∈ ids ∧ ¬ g.akin a b = true := by
  rw [strangers, List.mem_filter, Bool.not_eq_true', Bool.not_eq_true]

theorem Closed.strangers (h : g.Closed (a :: ids)) : g.Closed (g.strangers a ids) := by
  intro b hb c hakin
  obtain ⟨hmem, hapart⟩ := mem_strangers_iff.mp hb
  have hapart : ¬ g.akin a c = true := fun h =>
    hapart (akin_iff.mpr ((akin_iff.mp h).trans (akin_iff.mp hakin).symm))
  refine mem_strangers_iff.mpr ⟨(List.mem_cons.mp (h b (.tail _ hmem) c hakin)).resolve_left ?_,
    hapart⟩
  rintro rfl
  exact hapart (akin_iff.mpr (mutual_refl g _))

/-- Of closed nodes `a :: ids`, the first and those `akin` to it are what is `Mutual` with it. -/
theorem Closed.mem_first_iff (h : g.Closed (a :: ids)) :
    p ∈ (a :: ids.filter (g.akin a)).map some ↔ g.Mutual (some a) p := by
  constructor
  · intro hp
    obtain ⟨b, hb, rfl⟩ := List.mem_map.mp hp
    rcases List.mem_cons.mp hb with rfl | hb
    · exact mutual_refl g _
    · exact akin_iff.mp (List.mem_filter.mp hb).2
  · intro hmutual
    cases p with
    | none => cases mutual_none_iff.mp hmutual.symm
    | some b =>
      have hakin := akin_iff.mpr hmutual
      refine List.mem_map_of_mem (List.mem_cons.mpr ?_)
      exact (List.mem_cons.mp (h a (.head _) b hakin)).imp_right fun hb =>
        List.mem_filter.mpr ⟨hb, hakin⟩

/-- The components of `componentsOf ids`, one after the other, are a permutation of `ids`: no node
is in two of them, and every node is in one. -/
theorem flatten_componentsOf_perm (g : Graph) (ids : List NodeId) :
    (g.componentsOf ids).flatten.Perm (ids.map some) := by
  fun_induction g.componentsOf ids with
  | case1 => exact .nil
  | case2 id rest ih =>
    have hsplit := (List.filter_append_perm (g.akin id) rest).map (some : NodeId → Place)
    rw [List.map_append] at hsplit
    exact ((ih.append_left _).trans hsplit).cons _

theorem mem_componentOf_iff (closed : g.Closed ids) (hmem : component ∈ g.componentsOf ids)
    (hp : p ∈ component) : q ∈ component ↔ g.Mutual p q := by
  fun_induction g.componentsOf ids with
  | case1 => cases hmem
  | case2 id rest ih =>
    rcases List.mem_cons.mp hmem with rfl | hmem
    · have hmutual := closed.mem_first_iff.mp hp
      exact closed.mem_first_iff.trans ⟨hmutual.symm.trans, hmutual.trans⟩
    · exact ih closed.strangers hmem

/-- Looking for a cycle among `componentsOf` closed nodes is looking for a node on one. -/
theorem findCycle_componentsOf (nodup : ids.Nodup) (closed : g.Closed ids) :
    g.findCycle (g.componentsOf ids) = ids.find? g.isOnCycle := by
  fun_induction g.componentsOf ids with
  | case1 => rfl
  | case2 id rest ih =>
    have hnodup : ((id :: rest.filter (g.akin id)).map some).Nodup :=
      (nodup.sublist (List.filter_sublist.cons_cons id)).map fun _ _ => Option.some.inj
    have ih := ih ((List.nodup_cons.mp nodup).2.filter _) closed.strangers
    rw [findCycle, List.findSome?_cons, List.map_cons, cyclic?_some hnodup
      fun _ => closed.mem_first_iff, ← findCycle, ih, List.find?_cons]
    cases hcycle : g.isOnCycle id with
    | true => rfl
    | false =>
      -- what is akin to the first is not on a cycle either
      rw [if_neg Bool.false_ne_true, strangers, List.find?_filter]
      refine List.find?_congr fun other _ => ?_
      rw [Bool.eq_iff_iff, decide_eq_true_iff, Bool.not_eq_true', and_iff_right_iff_imp,
        ← Bool.not_eq_true]
      intro hother hakin
      rw [isOnCycle_of_akin hakin hother] at hcycle
      cases hcycle

theorem closed_of_perm (h : ids.Perm g.ids) : g.Closed ids := by
  intro a ha b hakin
  rcases reflTransGen_iff_eq_or_transGen.mp (akin_iff.mp hakin).1 with heq | hleads
  · exact Option.some.inj heq ▸ ha
  · exact h.mem_iff.mpr (mem_ids_of_transGen (transGen_leads_iff.mp hleads).2)

/-! ### Listings -/

/-- The trigger by itself, then `componentsOf` the nodes in any order, are the components. -/
theorem areComponents_of_perm (h : ids.Perm g.ids) :
    g.AreComponents ([none] :: g.componentsOf ids) := by
  constructor
  case partition =>
    exact ((flatten_componentsOf_perm g _).trans (h.map some)).cons none
  case connected =>
    intro component hmem p hp q
    rcases List.mem_cons.mp hmem with rfl | hmem
    · rw [List.mem_singleton.mp hp, mutual_none_iff, List.mem_singleton]
    · exact mem_componentOf_iff (closed_of_perm h) hmem hp

/-- With nodes in the order `ids`, `findCycle` is the first of them that `isOnCycle`. -/
theorem findCycle_of_perm (distinct : g.ids.Nodup) (h : ids.Perm g.ids) :
    g.findCycle ([none] :: g.componentsOf ids) = ids.find? g.isOnCycle := by
  have htrigger : g.cyclic? [none] = none := ite_self none
  rw [findCycle, List.findSome?_cons, htrigger]
  exact findCycle_componentsOf (h.nodup_iff.mpr distinct) (closed_of_perm h)

theorem areComponents_components (g : Graph) : g.AreComponents g.components :=
  areComponents_of_perm (map_id_sortedNodes_perm g)

/-- By default, `findCycle` is the least node that `isOnCycle`. -/
theorem findCycle_eq_find? (distinct : g.ids.Nodup) :
    g.findCycle = (g.sortedNodes.map Node.id).find? g.isOnCycle :=
  findCycle_of_perm distinct (map_id_sortedNodes_perm g)

/-- A function that lists the components of every graph: its values are `AreComponents`. -/
def ListsComponents (list : Graph → List (List Place)) : Prop :=
  ∀ g : Graph, g.AreComponents (list g)

theorem listsComponents_components : ListsComponents Graph.components := areComponents_components

/-- The listing that takes up node `a` first, if it is live, and then the others as they come. -/
def componentsFrom (a : NodeId) (g : Graph) : List (List Place) :=
  [none] :: g.componentsOf (if a ∈ g.ids then a :: g.ids.erase a else g.ids)

theorem listsComponents_componentsFrom (a : NodeId) : ListsComponents (componentsFrom a) := by
  intro g
  refine areComponents_of_perm ?_
  split
  · next ha => exact (List.perm_cons_erase ha).symm
  · exact .refl _

/-- Any node on a cycle is what `findCycle` answers with for some listing. -/
theorem findCycle_componentsFrom (distinct : g.ids.Nodup) (hcycle : TransGen g.LiveEdge a a) :
    g.findCycle (g.componentsFrom a) = some a := by
  have ha := mem_ids_of_transGen hcycle
  rw [componentsFrom, if_pos ha, findCycle_of_perm distinct (List.perm_cons_erase ha).symm,
    List.find?_cons_of_pos (isOnCycle_iff.mpr hcycle)]

/-! ### What is found -/

/-- An answer to the question for a cycle in some rows: a live node from which `Linked` leads back
to it, or `none` if there is no such node. -/
structure FindsCycle (nodes : List Node) (connections : List Connection) (found : Option NodeId) :
    Prop where
  sound : ∀ id, found = some id → LiveIn nodes id ∧ TransGen (Linked nodes connections) id id
  complete : found = none → ∀ id, ¬ TransGen (Linked nodes connections) id id

variable {nodes : List Node} {connections : List Connection}

theorem AreComponents.findsCycle
    (h : (ofRows nodes connections).AreComponents components) :
    FindsCycle nodes connections ((ofRows nodes connections).findCycle components) := by
  have distinct := nodup_ids_ofRows nodes connections
  constructor
  case sound =>
    intro id hfound
    have hcycle := h.sound distinct hfound
    have hlinked := transGen_linked_iff.mpr ⟨mem_ids_of_transGen hcycle, hcycle⟩
    obtain ⟨_, hlink, -⟩ := TransGen.head'_iff.mp hlinked
    exact ⟨hlink.1, hlinked⟩
  case complete =>
    intro hnone id hcycle
    exact h.complete distinct hnone (transGen_linked_iff.mp hcycle).2

/-- For all rows and `components` of their graph `g`, in whatever order, `g.findCycle components`
answers the question for a cycle (`FindsCycle`), and the trigger is a component `[none]` by itself,
on no cycle.  Each node on a cycle is the answer for some listing, and by default the least one is.

Rows may share an identifier: it is not live then if one of them is a tombstone, as no connection to
it or from it is in the graph. -/
theorem findCycle_finds_cycles (nodes : List Node) (connections : List Connection) :
    let g := ofRows nodes connections
    (∀ components, g.AreComponents components →
      FindsCycle nodes connections (g.findCycle components) ∧ [none] ∈ components) ∧
    ¬ TransGen g.Leads none none ∧
    (∀ id, TransGen (Linked nodes connections) id id →
      ∃ components, g.AreComponents components ∧ g.findCycle components = some id) ∧
    (g.AreComponents g.components ∧
      g.findCycle = (g.sortedNodes.map Node.id).find? g.isOnCycle) ∧
    FindsCycle nodes connections g.findCycle := by
  intro g
  have distinct : g.ids.Nodup := nodup_ids_ofRows nodes connections
  refine ⟨fun components h => ⟨h.findsCycle, h.trigger_mem distinct⟩, not_transGen_leads_none,
    fun id hcycle => ?_, ⟨areComponents_components g, findCycle_eq_find? distinct⟩,
    (areComponents_components g).findsCycle⟩
  exact ⟨g.componentsFrom id, listsComponents_componentsFrom id g,
    findCycle_componentsFrom distinct (transGen_linked_iff.mp hcycle).2⟩

end TriggerFlow.Graph
