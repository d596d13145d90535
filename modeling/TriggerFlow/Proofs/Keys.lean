import Mathlib.Data.List.Induction
import Mathlib.Data.List.Nodup
/-!
# Lists with keys

Rows, nodes and capabilities stand in lists, and are found by keys of which each has its own
(`find?_eq_some_iff_of_nodup`).  Where a list has members more than once, their first appearances
are kept (`eraseDups_concat`).
-/

namespace TriggerFlow

/-! ### Members by key -/

/-- Where keys are distinct, `find?` by a key gives exactly the member with that key. -/
theorem find?_eq_some_iff_of_nodup {α β : Type} [BEq β] [LawfulBEq β] {key : α → β} {as : List α}
    (h : (as.map key).Nodup) {k : β} {a : α} :
    as.find? (fun a => key a == k) = some a ↔ a ∈ as ∧ key a = k := by
  constructor
  · intro hfound
    exact ⟨List.mem_of_find?_eq_some hfound, by simpa using List.find?_some hfound⟩
  · rintro ⟨hmem, rfl⟩
    have hsome : (as.find? fun b => key b == key a).isSome = true :=
      List.find?_isSome.mpr ⟨a, hmem, by simp⟩
    obtain ⟨b, hb⟩ := Option.isSome_iff_exists.mp hsome
    have hkey : key b = key a := by simpa using List.find?_some hb
    rw [hb, List.inj_on_of_nodup_map h (List.mem_of_find?_eq_some hb) hmem hkey]

/-! ### Distinct members in the order of their first appearance -/

section Distinct

variable {α : Type} [DecidableEq α]

theorem eraseDups_concat (as : List α) (a : α) :
    (as ++ [a]).eraseDups = if a ∈ as then as.eraseDups else as.eraseDups ++ [a] := by
  rw [List.eraseDups_append]
  by_cases h : a ∈ as
  · simp [List.removeAll, h]
  · simp [List.removeAll, h, List.eraseDups_cons]

theorem nodup_eraseDups (as : List α) : as.eraseDups.Nodup := by
  induction as using List.reverseRecOn with
  | nil => exact .nil
  | append_singleton as a ih =>
    rw [eraseDups_concat]
    split
    · exact ih
    · next hnew =>
      rw [← List.concat_eq_append]
      exact .concat (mt List.mem_eraseDups.mp hnew) ih

theorem eraseDups_sublist (as : List α) : as.eraseDups.Sublist as := by
  induction as using List.reverseRecOn with
  | nil => exact .slnil
  | append_singleton as a ih =>
    rw [eraseDups_concat]
    split
    · exact ih.trans (List.sublist_append_left _ _)
    · exact ih.append_right [a]

end Distinct

end TriggerFlow
