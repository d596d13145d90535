import Mathlib.Data.Finset.Card
import Mathlib.Data.String.Basic
import TriggerFlow.Builtin.Actions
import TriggerFlow.Proofs.Catalogue.Entries
/-!
# What a catalogue answers

A listing shows capabilities in strictly ascending order of their identifiers, and this determines
it (`Lists.unique`).  So whatever a catalogue is asked, its answer depends on what it holds under
each slot and on nothing else (`sameAnswers_of_held?_eq`): neither on what was registered earlier
under the slot, nor on the order of the tables (`registerAll_keeps_last`).

The listing of both kinds puts the actions behind the triggers.  It is in order only as long as the
identifiers happen to be so (`list_ascends_iff`).
-/

namespace TriggerFlow

namespace Capability

/-- The capability is the `last?` one with its slot. -/
def IsCurrent (xs : List Capability) (x : Capability) : Prop := last? xs x.slot = some x

def IsOf (category : Option String) (x : Capability) : Prop :=
  ∀ wanted, category = some wanted → x.category = wanted

theorem kind_info (x : Capability) : x.info.kind = x.kind := by
  cases x <;> rfl

end Capability

namespace Catalogue

/-! ### Listings -/

theorem pairwise_mergeSort_by {α : Type} (text : α → String) (as : List α) :
    (as.mergeSort fun a b => decide (text a ≤ text b)).Pairwise fun a b => text a ≤ text b := by
  have htrans : ∀ a b c : α, decide (text a ≤ text b) = true → decide (text b ≤ text c) = true →
      decide (text a ≤ text c) = true := by
    intro a b c hab hbc
    simp only [decide_eq_true_eq] at hab hbc ⊢
    exact le_trans hab hbc
  have htotal : ∀ a b : α, (decide (text a ≤ text b) || decide (text b ≤ text a)) = true := by
    intro a b
    simp only [Bool.or_eq_true, decide_eq_true_eq]
    exact le_total _ _
  exact (List.pairwise_mergeSort htrans htotal as).imp fun h => by simpa using h

/-- The listing shows exactly the capabilities of `shown`, strictly ascending by identifier. -/
structure Lists (shown : Capability → Prop) (infos : List CapabilityInfo) : Prop where
  ascending : infos.Pairwise fun i j => i.id < j.id
  mem_iff : ∀ i, i ∈ infos ↔ ∃ x, shown x ∧ x.info = i

variable {c c' : Catalogue} {infos infos' : List CapabilityInfo} {category : Option String}
  {shown : Capability → Prop}

theorem Lists.nodup (h : Lists shown infos) : infos.Nodup :=
  h.ascending.imp fun hlt heq => by
    rw [heq] at hlt
    exact lt_irrefl _ hlt

theorem Lists.unique (h : Lists shown infos) (h' : Lists shown infos') : infos = infos' := by
  have hperm : infos.Perm infos' := by
    refine (List.perm_ext_iff_of_nodup h.nodup h'.nodup).mpr fun i => ?_
    rw [h.mem_iff, h'.mem_iff]
  refine hperm.eq_of_pairwise (fun i j _ _ hij hji => ?_) h.ascending h'.ascending
  exact absurd (hij.trans hji) (lt_irrefl _)

theorem mem_sorted_iff {i : CapabilityInfo} :
    i ∈ sorted infos category ↔
      i ∈ infos ∧ ∀ wanted, category = some wanted → i.category = wanted := by
  rw [sorted, List.mem_mergeSort, List.mem_filter]
  cases category <;> simp

theorem pairwise_sorted (infos : List CapabilityInfo) (category : Option String) :
    (sorted infos category).Pairwise fun i j => i.id ≤ j.id :=
  pairwise_mergeSort_by CapabilityInfo.id _

/-- Where no identifier is there twice, `sorted` ascends strictly. -/
theorem ascending_sorted (nodup : (infos.map CapabilityInfo.id).Nodup) (category : Option String) :
    (sorted infos category).Pairwise fun i j => i.id < j.id := by
  have hsub : (infos.filter fun i => category.all fun wanted => i.category == wanted).Sublist
    infos := List.filter_sublist
  have hids : ((sorted infos category).map CapabilityInfo.id).Nodup :=
    ((List.mergeSort_perm _ _).map _).nodup_iff.mpr ((hsub.map _).nodup nodup)
  exact ((pairwise_sorted infos category).and (List.pairwise_map.mp hids)).imp
    fun ⟨hle, hne⟩ => lt_of_le_of_ne hle hne

def Holds (c : Catalogue) (x : Capability) : Prop := c.held? x.slot = some x

theorem Keyed.lists_triggers (keyed : c.Keyed) (category : Option String) :
    Lists (fun x => c.Holds x ∧ x.kind = .trigger ∧ x.IsOf category) (c.listTriggers category) := by
  constructor
  · refine ascending_sorted ?_ category
    rw [List.map_map]
    exact keyed.triggers
  · intro i
    rw [listTriggers, mem_sorted_iff, List.mem_map]
    constructor
    · rintro ⟨⟨t, ht, rfl⟩, hof⟩
      exact ⟨.trigger t, ⟨keyed.mem_triggers_iff.mp ht, rfl, hof⟩, rfl⟩
    · rintro ⟨x, ⟨hholds, hkind, hof⟩, rfl⟩
      cases x with
      | trigger t => exact ⟨⟨t, keyed.mem_triggers_iff.mpr hholds, rfl⟩, hof⟩
      | action a => cases hkind

theorem Keyed.lists_actions (keyed : c.Keyed) (category : Option String) :
    Lists (fun x => c.Holds x ∧ x.kind = .action ∧ x.IsOf category) (c.listActions category) := by
  constructor
  · refine ascending_sorted ?_ category
    rw [List.map_map]
    exact keyed.actions
  · intro i
    rw [listActions, mem_sorted_iff, List.mem_map]
    constructor
    · rintro ⟨⟨a, ha, rfl⟩, hof⟩
      exact ⟨.action a, ⟨keyed.mem_actions_iff.mp ha, rfl, hof⟩, rfl⟩
    · rintro ⟨x, ⟨hholds, hkind, hof⟩, rfl⟩
      cases x with
      | trigger t => cases hkind
      | action a => exact ⟨⟨a, keyed.mem_actions_iff.mpr hholds, rfl⟩, hof⟩

/-! ### Categories -/

theorem ascending_categories (c : Catalogue) : c.categories.Pairwise (· < ·) := by
  have hle := pairwise_mergeSort_by id
    (c.triggers.map Trigger.category ++ c.actions.map Action.category)
  refine ((hle.sublist (eraseDups_sublist _)).and (nodup_eraseDups _)).imp ?_
  rintro a b ⟨hab, hne⟩
  exact lt_of_le_of_ne hab hne

theorem Keyed.mem_categories_iff (keyed : c.Keyed) {name : String} :
    name ∈ c.categories ↔ ∃ x, c.Holds x ∧ x.category = name := by
  rw [categories, List.mem_eraseDups, List.mem_mergeSort, List.mem_append, List.mem_map,
    List.mem_map]
  constructor
  · rintro (⟨t, ht, rfl⟩ | ⟨a, ha, rfl⟩)
    · exact ⟨.trigger t, keyed.mem_triggers_iff.mp ht, rfl⟩
    · exact ⟨.action a, keyed.mem_actions_iff.mp ha, rfl⟩
  · rintro ⟨x, hholds, rfl⟩
    cases x with
    | trigger t => exact .inl ⟨t, keyed.mem_triggers_iff.mpr hholds, rfl⟩
    | action a => exact .inr ⟨a, keyed.mem_actions_iff.mpr hholds, rfl⟩

/-! ### Answers -/

structure SameAnswers (c c' : Catalogue) : Prop where
  trigger? : ∀ id, c.trigger? id = c'.trigger? id
  action? : ∀ id, c.action? id = c'.action? id
  lookup : ∀ id, c.lookup id = c'.lookup id
  size : c.size = c'.size
  listTriggers : ∀ category, c.listTriggers category = c'.listTriggers category
  listActions : ∀ category, c.listActions category = c'.listActions category
  list : ∀ category, c.list category = c'.list category
  categories : c.categories = c'.categories

theorem lookup_eq (c : Catalogue) (id : String) :
    c.lookup id = (c.held? (.action, id)).or (c.held? (.trigger, id)) := by
  rw [lookup, held?, held?]
  cases c.action? id <;> rfl

/-- Catalogues that hold the same under each slot give the `SameAnswers`. -/
theorem sameAnswers_of_held?_eq (keyed : c.Keyed) (keyed' : c'.Keyed)
    (same : c.held? = c'.held?) : c.SameAnswers c' := by
  have hholds : c.Holds = c'.Holds := by
    funext x
    rw [Holds, Holds, same]
  have htriggers : ∀ category, c.listTriggers category = c'.listTriggers category := by
    intro category
    have hlists := keyed.lists_triggers category
    rw [hholds] at hlists
    exact hlists.unique (keyed'.lists_triggers category)
  have hactions : ∀ category, c.listActions category = c'.listActions category := by
    intro category
    have hlists := keyed.lists_actions category
    rw [hholds] at hlists
    exact hlists.unique (keyed'.lists_actions category)
  -- categories and slots come as lists without repetition, so their members determine them
  have hcategories : c.categories.Perm c'.categories := by
    refine (List.perm_ext_iff_of_nodup ?_ ?_).mpr fun name => ?_
    · exact nodup_eraseDups _
    · exact nodup_eraseDups _
    · rw [keyed.mem_categories_iff, keyed'.mem_categories_iff, hholds]
  have hslots : c.slots.Perm c'.slots := by
    refine (List.perm_ext_iff_of_nodup keyed.nodup_slots keyed'.nodup_slots).mpr fun slot => ?_
    rw [mem_slots_iff, mem_slots_iff, same]
  refine ⟨fun id => ?_, fun id => ?_, fun id => ?_, ?_, htriggers, hactions, fun category => ?_, ?_⟩
  · have hentry := congrFun same (.trigger, id)
    exact Option.map_injective (fun _ _ heq => Capability.trigger.inj heq) hentry
  · have hentry := congrFun same (.action, id)
    exact Option.map_injective (fun _ _ heq => Capability.action.inj heq) hentry
  · rw [lookup_eq, lookup_eq, same]
  · rw [← length_slots, ← length_slots, hslots.length_eq]
  · rw [list, list, htriggers, hactions]
  · -- of two ascending lists with the same members there is only one
    refine hcategories.eq_of_pairwise (fun a b _ _ hab hba => ?_) (ascending_categories c)
      (ascending_categories c')
    exact absurd (hab.trans hba) (lt_irrefl _)

/-! ### Registered capabilities -/

theorem holds_registerAll_iff {xs : List Capability} {x : Capability} :
    (empty.registerAll xs).Holds x ↔ x.IsCurrent xs := by
  rw [Holds, held?_registerAll, Capability.IsCurrent]

/-- The size is the number of slots under which something was registered. -/
theorem size_registerAll (xs : List Capability) :
    (empty.registerAll xs).size = (xs.map Capability.slot).toFinset.card := by
  have hslots : (empty.registerAll xs).slots.toFinset = (xs.map Capability.slot).toFinset := by
    ext slot
    rw [List.mem_toFinset, List.mem_toFinset, mem_slots_iff, held?_registerAll,
      Capability.isSome_last?_iff]
  rw [← hslots, List.toFinset_card_of_nodup (keyed_registerAll xs).nodup_slots, length_slots]

/-- For every slot `registerAll` keeps the `last?` capability, and all answers are about these:
lookups, the size, the listings, which `Lists` says are strictly ascending and complete, and the
categories.  Whatever was registered with the same last capabilities, in whatever order the tables
stand, gives the `SameAnswers`. -/
theorem registerAll_keeps_last (xs : List Capability) :
    let c := empty.registerAll xs
    (∀ id, (c.action? id).map .action = Capability.last? xs (.action, id)) ∧
    (∀ id, (c.trigger? id).map .trigger = Capability.last? xs (.trigger, id)) ∧
    (∀ id, c.lookup id =
      (Capability.last? xs (.action, id)).or (Capability.last? xs (.trigger, id))) ∧
    c.size = (xs.map Capability.slot).toFinset.card ∧
    (∀ category, Lists (fun x => x.IsCurrent xs ∧ x.kind = .action ∧ x.IsOf category)
      (c.listActions category)) ∧
    (∀ category, Lists (fun x => x.IsCurrent xs ∧ x.kind = .trigger ∧ x.IsOf category)
      (c.listTriggers category)) ∧
    (c.categories.Pairwise (· < ·) ∧
      ∀ name, name ∈ c.categories ↔ ∃ x : Capability, x.IsCurrent xs ∧ x.category = name) ∧
    ∀ ys (c' : Catalogue), (∀ slot, Capability.last? ys slot = Capability.last? xs slot) →
      c'.Rearranges (empty.registerAll ys) → c'.SameAnswers c := by
  intro c
  have keyed : c.Keyed := keyed_registerAll xs
  have hentry : ∀ slot, c.held? slot = Capability.last? xs slot := held?_registerAll xs
  have hholds : c.Holds = fun x => x.IsCurrent xs := by
    funext x
    exact propext holds_registerAll_iff
  have hactions := keyed.lists_actions
  have htriggers := keyed.lists_triggers
  rw [hholds] at hactions htriggers
  refine ⟨fun id => hentry (.action, id), fun id => hentry (.trigger, id), fun id => ?_,
    size_registerAll xs, hactions, htriggers, ⟨ascending_categories c, fun name => ?_⟩, ?_⟩
  · rw [lookup_eq, hentry, hentry]
  · rw [keyed.mem_categories_iff, hholds]
  · intro ys c' hlast hrearranges
    have hkeyed := keyed_registerAll ys
    -- however the entries are arranged, each slot holds what was registered last
    refine sameAnswers_of_held?_eq (hrearranges.keyed hkeyed) keyed ?_
    rw [hrearranges.held?_eq hkeyed]
    funext slot
    rw [held?_registerAll, hlast, hentry]

def filedAction (category : String) : Capability :=
  .action { Builtin.log with id := "file", category }

def filedTrigger : Capability := .trigger { Builtin.trigger .eventCreated with id := "file" }

/-- Registering `filedAction` anew leaves nothing of the first category, and does not touch the
trigger of the same identifier. -/
theorem refiled_same_answers :
    (empty.registerAll [filedAction "draft", filedTrigger, filedAction "final"]).SameAnswers
      (empty.registerAll [filedTrigger, filedAction "final"]) := by
  obtain ⟨-, -, -, -, -, -, -, hsame⟩ :=
    registerAll_keeps_last [filedTrigger, filedAction "final"]
  refine hsame _ _ (fun slot => ?_) ⟨.refl _, .refl _⟩
  have hslot : (filedAction "draft").slot = (filedAction "final").slot := rfl
  show [filedAction "final", filedTrigger, filedAction "draft"].find? _ =
    [filedAction "final", filedTrigger].find? _
  -- what is not found under the later of the two actions is not found under the earlier
  by_cases hfinal : (filedAction "final").slot = slot
  · rw [List.find?_cons_of_pos (by simpa using hfinal),
      List.find?_cons_of_pos (by simpa using hfinal)]
  · simp [List.find?_cons, hslot, beq_false_of_ne hfinal]

/-! ### Both kinds in one listing -/

theorem mem_list_iff {xs : List Capability} {i : CapabilityInfo} :
    i ∈ (empty.registerAll xs).list category ↔
      ∃ x : Capability, x.IsCurrent xs ∧ x.IsOf category ∧ x.info = i := by
  have keyed := keyed_registerAll xs
  rw [list, List.mem_append, (keyed.lists_triggers category).mem_iff,
    (keyed.lists_actions category).mem_iff]
  constructor
  · rintro (⟨x, ⟨hholds, -, hof⟩, hinfo⟩ | ⟨x, ⟨hholds, -, hof⟩, hinfo⟩)
    · exact ⟨x, holds_registerAll_iff.mp hholds, hof, hinfo⟩
    · exact ⟨x, holds_registerAll_iff.mp hholds, hof, hinfo⟩
  · rintro ⟨x, hcurrent, hof, hinfo⟩
    have hholds := holds_registerAll_iff.mpr hcurrent
    cases hkind : x.kind with
    | trigger => exact .inl ⟨x, ⟨hholds, hkind, hof⟩, hinfo⟩
    | action => exact .inr ⟨x, ⟨hholds, hkind, hof⟩, hinfo⟩

theorem nodup_list (xs : List Capability) (category : Option String) :
    ((empty.registerAll xs).list category).Nodup := by
  have keyed := keyed_registerAll xs
  have htriggers := keyed.lists_triggers category
  have hactions := keyed.lists_actions category
  refine List.nodup_append.mpr ⟨htriggers.nodup, hactions.nodup, ?_⟩
  rintro i hleft j hright rfl
  obtain ⟨x, ⟨-, hx, -⟩, rfl⟩ := (htriggers.mem_iff i).mp hleft
  obtain ⟨y, ⟨-, hy, -⟩, hinfo⟩ := (hactions.mem_iff _).mp hright
  have hkind : x.kind = y.kind := by
    rw [← Capability.kind_info, ← Capability.kind_info, hinfo]
  rw [hx, hy] at hkind
  cases hkind

/-- The `list` of both kinds ascends exactly if no action comes before a trigger. -/
theorem pairwise_list_iff {xs : List Capability} :
    ((empty.registerAll xs).list category).Pairwise (fun i j => i.id ≤ j.id) ↔
      ∀ t a, (Capability.trigger t).IsCurrent xs → (Capability.trigger t).IsOf category →
        (Capability.action a).IsCurrent xs → (Capability.action a).IsOf category →
        t.id ≤ a.id := by
  have keyed := keyed_registerAll xs
  have htriggers := keyed.lists_triggers category
  have hactions := keyed.lists_actions category
  -- each part ascends by itself, so all depends on pairs across the two
  rw [list, List.pairwise_append]
  constructor
  · rintro ⟨-, -, hacross⟩ t a ht htof ha haof
    have hleft := (htriggers.mem_iff t.info).mpr
      ⟨.trigger t, ⟨holds_registerAll_iff.mpr ht, rfl, htof⟩, rfl⟩
    have hright := (hactions.mem_iff a.info).mpr
      ⟨.action a, ⟨holds_registerAll_iff.mpr ha, rfl, haof⟩, rfl⟩
    exact hacross _ hleft _ hright
  · intro hacross
    refine ⟨htriggers.ascending.imp le_of_lt, hactions.ascending.imp le_of_lt, ?_⟩
    intro i hleft j hright
    obtain ⟨x, ⟨hx, hxkind, hxof⟩, rfl⟩ := (htriggers.mem_iff i).mp hleft
    obtain ⟨y, ⟨hy, hykind, hyof⟩, rfl⟩ := (hactions.mem_iff j).mp hright
    cases x with
    | action a => cases hxkind
    | trigger t =>
      cases y with
      | trigger t' => cases hykind
      | action a =>
        exact hacross t a (holds_registerAll_iff.mp hx) hxof (holds_registerAll_iff.mp hy) hyof

/-- The `list` of both kinds shows every current capability of the category once.  It is in
ascending order exactly if the identifier of no current action is less than that of a current
trigger of the category. -/
theorem list_ascends_iff (xs : List Capability) (category : Option String) :
    let infos := (empty.registerAll xs).list category
    infos.Nodup ∧
    (∀ i, i ∈ infos ↔ ∃ x : Capability, x.IsCurrent xs ∧ x.IsOf category ∧ x.info = i) ∧
    (infos.Pairwise (fun i j => i.id ≤ j.id) ↔
      ∀ t a, (Capability.trigger t).IsCurrent xs → (Capability.trigger t).IsOf category →
        (Capability.action a).IsCurrent xs → (Capability.action a).IsOf category →
        t.id ≤ a.id) :=
  ⟨nodup_list xs category, fun _ => mem_list_iff, pairwise_list_iff⟩

/-- In the listing of the built-in capabilities a trigger comes before the action `delay`, although
its identifier comes after it. -/
theorem builtin_listing_unordered :
    ¬ ((empty.registerAll Builtin.capabilities).list none).Pairwise fun i j => i.id ≤ j.id := by
  intro hordered
  have hcreated : (Capability.trigger (Builtin.trigger .eventCreated)).IsCurrent
      Builtin.capabilities := rfl
  have hdelay : (Capability.action Builtin.delay).IsCurrent Builtin.capabilities := rfl
  have hle := pairwise_list_iff.mp hordered _ _ hcreated (by simp [Capability.IsOf]) hdelay
    (by simp [Capability.IsOf])
  have hlt : Builtin.delay.id < (Builtin.trigger .eventCreated).id := by decide
  exact absurd hle (not_le_of_gt hlt)

end Catalogue

end TriggerFlow
