import Mathlib.Data.List.Basic
import TriggerFlow.Json.Value
/-!
# Equality of form

Two objects are equal when each holds what the other holds, up to equality, under the same keys
(`equal_object_iff`).  So the order of fields plays no part, and `Json.equal` is reflexive and
symmetric (`equal_self`, `equal_comm`).
-/

namespace TriggerFlow

/-! ### Numbers -/

namespace JsonNumber

theorem equal_self (n : JsonNumber) : equal n n = true := by
  cases n with
  | int i => simp [equal]
  | double d => simp [equal, Double.equal_self, d.isNaN_eq_false]

theorem equal_comm (m n : JsonNumber) : equal m n = equal n m := by
  cases m with
  | int i =>
    cases n with
    | int j => rw [equal, equal, Bool.beq_comm]
    | double e => rfl
  | double d =>
    cases n with
    | int j => rfl
    | double e => rw [equal, equal, Double.equal_comm]

end JsonNumber

namespace Json

/-! ### Objects -/

variable {seen : List String} {fs gs : Fields}

theorem equalFields_cons_iff {k : String} {v : Json} :
    equalFields seen ((k, v) :: fs) gs = true ↔
      (k ∈ seen ∨ ∃ w, Fields.find? k gs = some w ∧ equal v w = true) ∧
        equalFields (k :: seen) fs gs = true := by
  rw [equalFields]
  cases Fields.find? k gs <;> simp

/-- Whatever `find?` gives in `fs` under a key that is not in `seen`, it gives in `gs` as well, up
to `equal`. -/
theorem equalFields_iff :
    equalFields seen fs gs = true ↔
      ∀ key v, key ∉ seen → Fields.find? key fs = some v →
        ∃ w, Fields.find? key gs = some w ∧ equal v w = true := by
  -- a key that has been seen is shadowed, so that only its first value counts
  induction fs generalizing seen with
  | nil => simp [equalFields, Fields.find?]
  | cons e fs ih =>
    obtain ⟨k, v⟩ := e
    rw [equalFields_cons_iff, ih]
    constructor
    · rintro ⟨hk, hrest⟩ key u hkey hfind
      by_cases heq : k = key
      · subst heq
        obtain rfl : v = u := by simpa [Fields.find?] using hfind
        exact hk.resolve_left hkey
      · rw [Fields.find?, if_neg heq] at hfind
        exact hrest key u (by simp [Ne.symm heq, hkey]) hfind
    · intro h
      refine ⟨?_, fun key u hkey hfind => ?_⟩
      · by_cases hk : k ∈ seen
        · exact .inl hk
        · exact .inr (h k v hk (by simp [Fields.find?]))
      · obtain ⟨hne, hkey⟩ := not_or.mp (List.mem_cons.not.mp hkey)
        exact h key u hkey (by rw [Fields.find?, if_neg (Ne.symm hne), hfind])

theorem all_has_iff :
    (gs.all fun g => Fields.has g.1 fs) = true ↔
      ∀ key w, Fields.find? key gs = some w → ∃ v, Fields.find? key fs = some v := by
  simp only [List.all_eq_true, Fields.has, Option.isSome_iff_exists]
  constructor
  · exact fun h key w hfind => h (key, w) (Fields.mem_of_find? hfind)
  · intro h g hg
    obtain ⟨w, hw⟩ := Fields.exists_find?_of_mem hg
    exact h g.1 w hw

/-- Two objects are equal exactly if `find?` gives equal values under each key or none in both. -/
theorem equal_object_iff :
    equal (object fs) (object gs) = true ↔
      ∀ key, Option.Rel (fun v w => equal v w = true) (Fields.find? key fs)
        (Fields.find? key gs) := by
  rw [equal, Bool.and_eq_true, equalFields_iff, all_has_iff]
  constructor
  · rintro ⟨hvalues, hkeys⟩ key
    cases hf : Fields.find? key fs with
    | some v =>
      obtain ⟨w, hw, hequal⟩ := hvalues key v List.not_mem_nil hf
      rw [hw]
      exact .some hequal
    | none =>
      cases hg : Fields.find? key gs with
      | none => exact .none
      | some w =>
        obtain ⟨v, hv⟩ := hkeys key w hg
        rw [hf] at hv
        cases hv
  · intro h
    refine ⟨fun key v _ hf => ?_, fun key w hg => ?_⟩
    · have hkey := h key
      rw [hf] at hkey
      generalize Fields.find? key gs = found at hkey ⊢
      cases hkey with
      | some hequal => exact ⟨_, rfl, hequal⟩
    · have hkey := h key
      rw [hg] at hkey
      generalize Fields.find? key fs = found at hkey ⊢
      cases hkey with
      | some hequal => exact ⟨_, rfl⟩

/-! ### Values -/

variable {vs ws : List Json}

theorem equalItems_self (ih : ∀ v ∈ vs, equal v v = true) : equalItems vs vs = true := by
  induction vs with
  | nil => rfl
  | cons v vs ihrest =>
    obtain ⟨hv, hrest⟩ := List.forall_mem_cons.mp ih
    rw [equalItems, hv, ihrest hrest, Bool.and_self]

theorem equal_self (v : Json) : equal v v = true := by
  induction v with
  | null => rfl
  | bool b => exact beq_self_eq_true b
  | number n => exact n.equal_self
  | string s => exact beq_self_eq_true s
  | array items ih => exact equalItems_self ih
  | object fields ih =>
    refine equal_object_iff.mpr fun key => ?_
    cases hfind : Fields.find? key fields with
    | none => exact .none
    | some v => exact .some (ih _ (Fields.mem_of_find? hfind))

theorem equalItems_comm (ih : ∀ v ∈ vs, ∀ w, equal v w = equal w v) :
    equalItems vs ws = equalItems ws vs := by
  induction vs generalizing ws with
  | nil => cases ws <;> rfl
  | cons v vs ihrest =>
    cases ws with
    | nil => rfl
    | cons w ws =>
      obtain ⟨hv, hrest⟩ := List.forall_mem_cons.mp ih
      rw [equalItems, equalItems, hv, ihrest hrest]

/-- Two objects are equal from left to right exactly if they are from right to left, if all values
of the first compare so. -/
theorem equal_object_comm (ih : ∀ f ∈ fs, ∀ w, equal f.2 w = equal w f.2) :
    equal (object fs) (object gs) = equal (object gs) (object fs) := by
  rw [Bool.eq_iff_iff, equal_object_iff, equal_object_iff]
  refine forall_congr' fun key => ?_
  cases hf : Fields.find? key fs with
  | none => cases Fields.find? key gs <;> simp
  | some v =>
    have hv := ih _ (Fields.mem_of_find? hf)
    cases Fields.find? key gs with
    | none => simp
    | some w => simp [hv w]

theorem equal_comm (v w : Json) : equal v w = equal w v := by
  induction v generalizing w with
  | null => cases w <;> rfl
  | bool b =>
    cases w with
    | bool c => exact Bool.beq_comm
    | _ => rfl
  | number n =>
    cases w with
    | number m => exact n.equal_comm m
    | _ => rfl
  | string s =>
    cases w with
    | string t => exact Bool.beq_comm
    | _ => rfl
  | array items ih =>
    cases w with
    | array items' => exact equalItems_comm ih
    | _ => rfl
  | object fields ih =>
    cases w with
    | object fields' => exact equal_object_comm ih
    | _ => rfl

end Json

end TriggerFlow
