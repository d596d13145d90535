import Mathlib.Logic.Basic
import Mathlib.Tactic.ByContra
import TriggerFlow.Builtin.Actions
/-!
# What the checks of built-in actions let through

An action publishes a schema for its settings, and the usual check is to go by it
(`Action.schemaErrors_eq_nil_iff`).  Two of the built-in actions have a check of their own.  It is
said of each what it lets through (`logErrors_eq_nil_iff`, `delayErrors_eq_nil_iff`), and that is
never more than the schema allows (`isMet_of_valid`).
-/

namespace TriggerFlow

/-! ### Schemas -/

/-- A setting is given if it is required, and `accepts` says that it has its type if it is given;
null stands for nothing. -/
structure ConfigField.IsMet (f : ConfigField) (config : Config) : Prop where
  given : f.required = true → ∃ v, Fields.find? f.name config = some v ∧ v ≠ .null
  typed : ∀ v, Fields.find? f.name config = some v → v ≠ .null → f.fieldType.accepts v = true

theorem ConfigField.error?_eq_none_iff {f : ConfigField} {config : Config} :
    f.error? config = none ↔ f.IsMet config := by
  unfold ConfigField.error?
  cases hfound : (Fields.find? f.name config).bind Json.notNull? with
  | none =>
    -- nothing is given, so that all depends on whether something has to be
    have hnull : ∀ v, Fields.find? f.name config = some v → v = .null := by
      intro v hv
      by_contra hne
      rw [hv, Option.bind_some, Json.notNull?_eq_some_iff.mpr ⟨rfl, hne⟩] at hfound
      cases hfound
    cases hrequired : f.required with
    | true =>
      refine ⟨fun h => by simp at h, fun hmet => ?_⟩
      obtain ⟨v, hv, hne⟩ := hmet.given hrequired
      exact absurd (hnull v hv) hne
    | false =>
      refine ⟨fun _ => ⟨fun h => ?_, fun v hv hne => absurd (hnull v hv) hne⟩, fun _ => by simp⟩
      rw [hrequired] at h
      cases h
  | some v =>
    obtain ⟨v', hv, hnotNull⟩ := Option.bind_eq_some_iff.mp hfound
    obtain ⟨rfl, hne⟩ := Json.notNull?_eq_some_iff.mp hnotNull
    dsimp only
    cases haccepts : f.fieldType.accepts v' with
    | true =>
      refine ⟨fun _ => ⟨fun _ => ⟨v', hv, hne⟩, fun w hw _ => ?_⟩, fun _ => by simp⟩
      obtain rfl := Option.some.inj (hv.symm.trans hw)
      exact haccepts
    | false =>
      refine ⟨fun h => by simp at h, fun hmet => ?_⟩
      rw [hmet.typed v' hv hne] at haccepts
      cases haccepts

/-- The usual check `schemaErrors` says nothing exactly if every setting of the schema `IsMet`. -/
theorem Action.schemaErrors_eq_nil_iff {schema : List ConfigField} {config : Config} :
    Action.schemaErrors schema config = [] ↔ ∀ f ∈ schema, f.IsMet config := by
  rw [Action.schemaErrors, List.filterMap_eq_nil_iff]
  exact forall₂_congr fun f _ => ConfigField.error?_eq_none_iff

namespace Builtin

variable {config : Config} {a : Action}

/-! ### Checks of their own -/

theorem accepts_object_iff {v : Json} :
    FieldType.object.accepts v = true ↔ ∃ fields, v = .object fields := by
  cases v <;> simp [FieldType.accepts]

theorem logErrors_eq_nil_iff :
    logErrors config = [] ↔
      (∀ v, Fields.find? "message" config = some v → ∃ s, v = .string s) ∧
      ∀ v, Fields.find? "level" config = some v → ∃ l ∈ levels, v = .string l := by
  unfold logErrors
  rw [List.append_eq_nil_iff]
  refine and_congr ?_ ?_
  · cases hmessage : Fields.find? "message" config with
    | none => simp
    | some v => simp [Option.isSome_iff_exists, Json.asString?_eq_some_iff]
  · cases hlevel : Fields.find? "level" config with
    | none => simp
    | some v => simp [Option.any_eq_true, Json.asString?_eq_some_iff, and_comm]

theorem asWord64?_of_limit {ms : Nat} (limit : ms ≤ maxDelayMs) :
    (Json.ofNat ms).asWord64? = some ms := by
  -- the limit is far below what a word holds
  rw [maxDelayMs] at limit
  exact Json.asWord64?_eq_some_iff.mpr ⟨rfl, by omega⟩

/-- A delay passes exactly if it is given as a whole number within `maxDelayMs`. -/
theorem delayErrors_eq_nil_iff :
    delayErrors config = [] ↔
      ∃ ms ≤ maxDelayMs, Fields.find? "delay_ms" config = some (.ofNat ms) := by
  unfold delayErrors
  cases hfound : Fields.find? "delay_ms" config with
  | none => simp
  | some v =>
    have hany : (v.asWord64?.any fun ms => ms ≤ maxDelayMs) = true ↔
        ∃ ms ≤ maxDelayMs, v = .ofNat ms := by
      rw [Option.any_eq_true]
      constructor
      · rintro ⟨ms, hms, hle⟩
        exact ⟨ms, by simpa using hle, (Json.asWord64?_eq_some_iff.mp hms).1⟩
      · rintro ⟨ms, hle, rfl⟩
        exact ⟨ms, asWord64?_of_limit hle, by simpa using hle⟩
    simp only [Option.some.injEq]
    rw [← hany]
    split <;> simp_all

/-- The settings of `setVariables` pass exactly if the values are given as an object. -/
theorem setVariablesErrors_eq_nil_iff :
    Action.schemaErrors setVariablesSchema config = [] ↔
      ∃ fields, Fields.find? "values" config = some (.object fields) := by
  rw [Action.schemaErrors_eq_nil_iff, setVariablesSchema, List.forall_mem_singleton]
  constructor
  · intro hmet
    obtain ⟨v, hv, hne⟩ := hmet.given rfl
    obtain ⟨fields, rfl⟩ := accepts_object_iff.mp (hmet.typed v hv hne)
    exact ⟨fields, hv⟩
  · rintro ⟨fields, hfound⟩
    refine ⟨fun _ => ⟨_, hfound, by simp⟩, fun v hv _ => ?_⟩
    exact accepts_object_iff.mpr ⟨fields, Option.some.inj (hv.symm.trans hfound)⟩

/-! ### What passes is what the schema asks for -/

theorem isMet_of_string {f : ConfigField} (optional : f.required = false)
    (string : f.fieldType = .string)
    (h : ∀ v, Fields.find? f.name config = some v → ∃ s, v = .string s) : f.IsMet config := by
  refine ⟨fun hrequired => ?_, fun v hv _ => ?_⟩
  · rw [optional] at hrequired
    cases hrequired
  · obtain ⟨s, rfl⟩ := h v hv
    rw [string]
    rfl

/-- Whatever the check of a built-in action lets through, its schema allows: each setting `IsMet`.
-/
theorem isMet_of_valid (builtin : a ∈ [log, setVariables, delay]) (valid : a.validate config = []) :
    ∀ f ∈ a.schema, f.IsMet config := by
  simp only [List.mem_cons, List.not_mem_nil, or_false] at builtin
  rcases builtin with rfl | rfl | rfl
  · obtain ⟨hmessage, hlevel⟩ := logErrors_eq_nil_iff.mp valid
    intro f hf
    simp only [log, List.mem_cons, List.not_mem_nil, or_false] at hf
    rcases hf with rfl | rfl
    · exact isMet_of_string rfl rfl hmessage
    · refine isMet_of_string rfl rfl fun v hv => ?_
      obtain ⟨l, -, rfl⟩ := hlevel v hv
      exact ⟨l, rfl⟩
  · exact Action.schemaErrors_eq_nil_iff.mp valid
  · obtain ⟨ms, -, hfound⟩ := delayErrors_eq_nil_iff.mp valid
    intro f hf
    simp only [delay, List.mem_cons, List.not_mem_nil, or_false] at hf
    subst hf
    refine ⟨fun _ => ⟨_, hfound, by simp [Json.ofNat]⟩, fun v hv _ => ?_⟩
    obtain rfl := Option.some.inj (hfound.symm.trans hv)
    rfl

end Builtin

end TriggerFlow
