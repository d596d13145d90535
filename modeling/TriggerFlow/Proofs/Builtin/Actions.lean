import TriggerFlow.Proofs.Builtin.Checks
import TriggerFlow.Proofs.Engine.Success
/-!
# The built-in actions do what their checks promise

An action is checked by `validate` and run by `run`, and both read the same settings.  For the
built-in actions they agree: settings that the check accepts are settings with which the action ends
well (`Builtin.exists_done_of_valid`), and they are no less than what its schema asks for
(`Builtin.checked_actions_run`).  Beside its result an action lets time pass at most.
-/

namespace TriggerFlow.Builtin

variable {config : Config} {context : Context} {s : Storage} {a : Action}

theorem actions_catalogue : catalogue.actions = [log, setVariables, delay] := rfl

theorem eq_of_action? {actionType : String} (h : catalogue.action? actionType = some a) :
    a = log ∨ a = setVariables ∨ a = delay := by
  have hmem := List.mem_of_find?_eq_some h
  rw [actions_catalogue] at hmem
  simpa using hmem

/-! ### Checks and runs agree -/

theorem delayRun_of_set {ms : Nat} (limit : ms ≤ maxDelayMs)
    (set : Fields.find? "delay_ms" config = some (.ofNat ms)) (context : Context) (s : Storage) :
    (delayRun config context s).1 = .done (.object [("delayed_ms", .ofNat ms)]) := by
  rw [delayRun, set, Option.bind_some, asWord64?_of_limit limit]

/-- Where `validate` has no objections, a built-in action answers `.done`. -/
theorem exists_done_of_valid {actionType : String} (known : catalogue.action? actionType = some a)
    (valid : a.validate config = []) : ∃ result, (a.run config context s).1 = .done result := by
  rcases eq_of_action? known with rfl | rfl | rfl
  · exact ⟨_, rfl⟩
  · obtain ⟨fields, hfields⟩ := setVariablesErrors_eq_nil_iff.mp valid
    refine ⟨Template.renderValue context (.object fields), ?_⟩
    show setVariablesVerdict config context = _
    rw [setVariablesVerdict, hfields]
    rfl
  · obtain ⟨ms, hle, hfound⟩ := delayErrors_eq_nil_iff.mp valid
    exact ⟨_, delayRun_of_set hle hfound context s⟩

theorem exists_tick {actionType : String} (known : catalogue.action? actionType = some a) :
    ∃ clock, (a.run config context s).2 = { s with clock } := by
  rcases eq_of_action? known with rfl | rfl | rfl
  · exact ⟨s.clock, rfl⟩
  · exact ⟨s.clock, rfl⟩
  · show ∃ clock, (delayRun config context s).2 = _
    unfold delayRun
    split
    · exact ⟨_, rfl⟩
    · exact ⟨s.clock, rfl⟩

theorem reliable_catalogue : catalogue.Reliable where
  done _ _ known _ _ _ valid := exists_done_of_valid known valid
  tick _ _ known _ _ _ := exists_tick known

/-- Settings that pass the check of a built-in action pass `Action.schemaErrors` as well, each
setting `IsMet`, and the action answers `.done` in every context and store.  A delay is a number of
at most 60000 milliseconds, and is reported as it is set. -/
theorem checked_actions_run (builtin : a ∈ [log, setVariables, delay])
    (valid : a.validate config = []) :
    Action.schemaErrors a.schema config = [] ∧
    (∀ f ∈ a.schema, f.IsMet config) ∧
    (∀ context s, ∃ result s', a.run config context s = (.done result, s')) ∧
    (a = delay → ∃ ms ≤ 60000, Fields.find? "delay_ms" config = some (.ofNat ms) ∧
      ∀ context s, (a.run config context s).1 = .done (.object [("delayed_ms", .ofNat ms)])) := by
  have hmet := isMet_of_valid builtin valid
  refine ⟨Action.schemaErrors_eq_nil_iff.mpr hmet, hmet, fun context s => ?_, ?_⟩
  · have known : catalogue.action? a.id = some a := by
      simp only [List.mem_cons, List.not_mem_nil, or_false] at builtin
      rcases builtin with rfl | rfl | rfl <;> rfl
    obtain ⟨result, hdone⟩ := exists_done_of_valid known valid
    exact ⟨result, _, Prod.ext hdone rfl⟩
  · rintro rfl
    obtain ⟨ms, hle, hfound⟩ := delayErrors_eq_nil_iff.mp valid
    exact ⟨ms, hle, hfound, delayRun_of_set hle hfound⟩

/-- The longest `delay` passes, and is reported as it is set. -/
theorem longest_delay_runs :
    let config : Config := [("delay_ms", .ofNat 60000)]
    delay.validate config = [] ∧ (∀ f ∈ delay.schema, f.IsMet config) ∧
      ∀ context s, (delay.run config context s).1 =
        .done (.object [("delayed_ms", .ofNat 60000)]) := by
  intro config
  have hset : Fields.find? "delay_ms" config = some (.ofNat 60000) := rfl
  have valid : delay.validate config = [] := by
    show delayErrors config = []
    exact delayErrors_eq_nil_iff.mpr ⟨60000, le_rfl, hset⟩
  have hbuiltin : delay ∈ [log, setVariables, delay] := by simp
  obtain ⟨-, hmet, -, hdelay⟩ := checked_actions_run hbuiltin valid
  obtain ⟨ms, -, hfound, hruns⟩ := hdelay rfl
  have hms : (ms : Int) = 60000 := by simpa [hset, Json.ofNat] using hfound.symm
  obtain rfl : ms = 60000 := by omega
  exact ⟨valid, hmet, hruns⟩

end TriggerFlow.Builtin
