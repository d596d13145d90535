import Mathlib.Data.List.Basic
import Mathlib.Data.List.Induction
import Mathlib.Data.List.Nodup
import TriggerFlow.Catalogue
import TriggerFlow.Proofs.Keys
/-!
# What a catalogue holds

A capability stands in a catalogue under its kind and its identifier, its slot (`Capability.slot`).
Of the capabilities that are registered under one slot the catalogue holds the last
(`held?_registerAll`), whatever was registered under other slots in between.

In each of its two tables a catalogue has no identifier twice (`keyed_registerAll`), so that the
order of the tables plays no part in what the catalogue holds (`Rearranges.held?_eq`).
-/

namespace TriggerFlow

namespace Capability

def kind : Capability → CapabilityKind
  | trigger _ => .trigger
  | action _ => .action

/-- The place of a capability in a catalogue: its kind and its identifier. -/
def slot (x : Capability) : CapabilityKind × String := (x.kind, x.id)

/-- The last of the capabilities `xs` with the slot. -/
def last? (xs : List Capability) (slot : CapabilityKind × String) : Option Capability :=
  xs.reverse.find? fun x => x.slot == slot

theorem last?_concat (xs : List Capability) (x : Capability) (slot : CapabilityKind × String) :
    last? (xs ++ [x]) slot = if x.slot = slot then some x else last? xs slot := by
  rw [last?, List.reverse_concat, List.find?_cons]
  by_cases h : x.slot = slot
  · rw [if_pos h, beq_iff_eq.mpr h]
  · rw [if_neg h, beq_false_of_ne h, last?]

theorem isSome_last?_iff {xs : List Capability} {slot : CapabilityKind × String} :
    (last? xs slot).isSome = true ↔ slot ∈ xs.map Capability.slot := by
  rw [last?, List.find?_isSome, List.mem_map]
  simp

end Capability

namespace Catalogue

/-! ### One table -/

section PutBy

variable {α : Type} {key : α → String} {entry a : α} {as : List α} {k : String}

/-- What `find?` finds under the key of a new entry is the entry, and nothing else changes. -/
theorem find?_putBy (key : α → String) (entry : α) (as : List α) (k : String) :
    (putBy key entry as).find? (fun a => key a == k) =
      if key entry = k then some entry else as.find? fun a => key a == k := by
  induction as with
  | nil =>
    rw [putBy, List.find?_singleton]
    simp only [beq_iff_eq, List.find?_nil]
  | cons a as ih =>
    rw [putBy]
    by_cases hput : key a = key entry
    · rw [if_pos hput, List.find?_cons, List.find?_cons, hput]
      by_cases hk : key entry = k
      · rw [if_pos hk, beq_iff_eq.mpr hk]
      · rw [if_neg hk, beq_false_of_ne hk]
    · rw [if_neg hput, List.find?_cons, List.find?_cons, ih]
      by_cases hk : key a = k
      · -- the table has another entry in front that is found, so it is not the new one
        have hne : key entry ≠ k := fun heq => hput (hk.trans heq.symm)
        rw [if_neg hne, if_neg hne]
      · rw [beq_false_of_ne hk]

/-- Putting an entry appends its key to a table only if the table does not have it. -/
theorem map_putBy (key : α → String) (entry : α) (as : List α) :
    (putBy key entry as).map key =
      if key entry ∈ as.map key then as.map key else as.map key ++ [key entry] := by
  induction as with
  | nil => simp [putBy]
  | cons a as ih =>
    rw [putBy]
    by_cases hput : key a = key entry
    · simp [hput]
    · rw [if_neg hput, List.map_cons, ih, List.map_cons]
      by_cases hmem : key entry ∈ as.map key
      · rw [if_pos hmem, if_pos (List.mem_cons_of_mem _ hmem)]
      · have hnew : key entry ∉ key a :: as.map key := by
          simp only [List.mem_cons, not_or]
          exact ⟨Ne.symm hput, hmem⟩
        rw [if_neg hmem, if_neg hnew, List.cons_append]

theorem nodup_map_putBy (entry : α) (h : (as.map key).Nodup) :
    ((putBy key entry as).map key).Nodup := by
  rw [map_putBy]
  split
  · exact h
  · next hnew =>
    rw [← List.concat_eq_append]
    exact .concat hnew h

end PutBy

/-! ### Both tables -/

def held? (c : Catalogue) : CapabilityKind × String → Option Capability
  | (.trigger, id) => (c.trigger? id).map .trigger
  | (.action, id) => (c.action? id).map .action

structure Keyed (c : Catalogue) : Prop where
  triggers : (c.triggers.map Trigger.id).Nodup
  actions : (c.actions.map Action.id).Nodup

variable {c c' : Catalogue}

theorem keyed_empty : empty.Keyed := ⟨.nil, .nil⟩

theorem held?_empty (slot : CapabilityKind × String) : empty.held? slot = none := by
  obtain ⟨kind, id⟩ := slot
  cases kind <;> rfl

/-- Registering `x` changes what is held under the slot of `x` to `x`, and nothing else. -/
theorem held?_register (c : Catalogue) (x : Capability) (slot : CapabilityKind × String) :
    (c.register x).held? slot = if x.slot = slot then some x else c.held? slot := by
  obtain ⟨kind, id⟩ := slot
  cases x with
  | trigger t =>
    cases kind with
    | trigger =>
      have hslot : (Capability.trigger t).slot = (.trigger, id) ↔ t.id = id := by
        simp [Capability.slot, Capability.kind, Capability.id]
      simp only [held?, register, trigger?, find?_putBy, hslot]
      split <;> rfl
    | action => simp [held?, register, action?, Capability.slot, Capability.kind]
  | action a =>
    cases kind with
    | trigger => simp [held?, register, trigger?, Capability.slot, Capability.kind]
    | action =>
      have hslot : (Capability.action a).slot = (.action, id) ↔ a.id = id := by
        simp [Capability.slot, Capability.kind, Capability.id]
      simp only [held?, register, action?, find?_putBy, hslot]
      split <;> rfl

theorem Keyed.register (keyed : c.Keyed) (x : Capability) : (c.register x).Keyed := by
  cases x with
  | trigger t => exact ⟨nodup_map_putBy t keyed.triggers, keyed.actions⟩
  | action a => exact ⟨keyed.triggers, nodup_map_putBy a keyed.actions⟩

theorem registerAll_concat (c : Catalogue) (xs : List Capability) (x : Capability) :
    c.registerAll (xs ++ [x]) = (c.registerAll xs).register x := by
  rw [registerAll, List.foldl_concat, registerAll]

/-- Under every slot a catalogue holds the `last?` capability that was registered there. -/
theorem held?_registerAll (xs : List Capability) (slot : CapabilityKind × String) :
    (empty.registerAll xs).held? slot = Capability.last? xs slot := by
  induction xs using List.reverseRecOn with
  | nil => exact held?_empty slot
  | append_singleton xs x ih =>
    rw [registerAll_concat, held?_register, Capability.last?_concat, ih]

theorem keyed_registerAll (xs : List Capability) : (empty.registerAll xs).Keyed := by
  induction xs using List.reverseRecOn with
  | nil => exact keyed_empty
  | append_singleton xs x ih =>
    rw [registerAll_concat]
    exact ih.register x

/-! ### Entries and tables -/

theorem Keyed.mem_triggers_iff (keyed : c.Keyed) {t : Trigger} :
    t ∈ c.triggers ↔ c.held? (.trigger, t.id) = some (.trigger t) := by
  have hfound := find?_eq_some_iff_of_nodup (a := t) (k := t.id) keyed.triggers
  rw [held?, Option.map_eq_some_iff, trigger?]
  constructor
  · exact fun hmem => ⟨t, hfound.mpr ⟨hmem, rfl⟩, rfl⟩
  · rintro ⟨t', ht', heq⟩
    obtain rfl := Capability.trigger.inj heq
    exact (hfound.mp ht').1

theorem Keyed.mem_actions_iff (keyed : c.Keyed) {a : Action} :
    a ∈ c.actions ↔ c.held? (.action, a.id) = some (.action a) := by
  have hfound := find?_eq_some_iff_of_nodup (a := a) (k := a.id) keyed.actions
  rw [held?, Option.map_eq_some_iff, action?]
  constructor
  · exact fun hmem => ⟨a, hfound.mpr ⟨hmem, rfl⟩, rfl⟩
  · rintro ⟨a', ha', heq⟩
    obtain rfl := Capability.action.inj heq
    exact (hfound.mp ha').1

def slots (c : Catalogue) : List (CapabilityKind × String) :=
  c.triggers.map (fun t => (.trigger, t.id)) ++ c.actions.map fun a => (.action, a.id)

theorem length_slots (c : Catalogue) : c.slots.length = c.size := by
  rw [slots, List.length_append, List.length_map, List.length_map, size]

theorem mem_slots_iff {slot : CapabilityKind × String} :
    slot ∈ c.slots ↔ (c.held? slot).isSome = true := by
  obtain ⟨kind, id⟩ := slot
  rw [slots, List.mem_append, List.mem_map, List.mem_map]
  cases kind with
  | trigger => simp [held?, trigger?]
  | action => simp [held?, action?]

theorem Keyed.nodup_slots (keyed : c.Keyed) : c.slots.Nodup := by
  have hpair : ∀ kind : CapabilityKind, Function.Injective fun id : String => (kind, id) :=
    fun kind _ _ heq => (Prod.mk.inj heq).2
  have htriggers : (c.triggers.map fun t => (CapabilityKind.trigger, t.id)).Nodup := by
    have hmap := keyed.triggers.map (hpair .trigger)
    rwa [List.map_map] at hmap
  have hactions : (c.actions.map fun a => (CapabilityKind.action, a.id)).Nodup := by
    have hmap := keyed.actions.map (hpair .action)
    rwa [List.map_map] at hmap
  refine List.nodup_append.mpr ⟨htriggers, hactions, ?_⟩
  -- a slot says of which table it is
  rintro slot hleft slot' hright rfl
  obtain ⟨t, -, rfl⟩ := List.mem_map.mp hleft
  obtain ⟨a, -, heq⟩ := List.mem_map.mp hright
  cases heq

/-! ### The order of the tables -/

/-- The tables of `c'` are those of `c`, each in some order. -/
structure Rearranges (c' c : Catalogue) : Prop where
  triggers : c'.triggers.Perm c.triggers
  actions : c'.actions.Perm c.actions

theorem Rearranges.keyed (h : c'.Rearranges c) (keyed : c.Keyed) : c'.Keyed :=
  ⟨(h.triggers.map _).nodup_iff.mpr keyed.triggers, (h.actions.map _).nodup_iff.mpr keyed.actions⟩

theorem find?_eq_of_perm {α : Type} {key : α → String} {as as' : List α} (h : as'.Perm as)
    (nodup : (as.map key).Nodup) (k : String) :
    as'.find? (fun a => key a == k) = as.find? fun a => key a == k := by
  have hnodup : (as'.map key).Nodup := (h.map key).nodup_iff.mpr nodup
  ext a
  rw [find?_eq_some_iff_of_nodup hnodup, find?_eq_some_iff_of_nodup nodup, h.mem_iff]

theorem Rearranges.held?_eq (h : c'.Rearranges c) (keyed : c.Keyed) : c'.held? = c.held? := by
  funext slot
  obtain ⟨kind, id⟩ := slot
  cases kind with
  | trigger => rw [held?, held?, trigger?, trigger?, find?_eq_of_perm h.triggers keyed.triggers]
  | action => rw [held?, held?, action?, action?, find?_eq_of_perm h.actions keyed.actions]

end Catalogue

end TriggerFlow
