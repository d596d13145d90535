import TriggerFlow.Proofs.Builtin.Actions
import TriggerFlow.Proofs.Engine.Overdue
import TriggerFlow.Proofs.Uses
/-!
# The outcome of a run is final

Over any sequence `ops` of operations on tables `t`, rows of executions are found in `t.afterAll
ops` where they were in `t`, and a closed row is found as it was (`Execution.Precedes`).  Of those
who try to close a running row the first one does, and the others get a conflict
(`Tables.executions_are_final`).

Authors, the reaper and runs use tables by operations only, so that this holds of whatever they do,
in whatever order: if tables come `Later` by `Honest` uses, operations lead to them (`Later.leads`).
-/

namespace TriggerFlow

/-! ### Uses are operations -/

/-- The actions that a use runs are `Engine.Honest`. -/
def Use.Honest (use : Use) (_ : World) : Prop :=
  ∀ engine, use.engine? = some engine → engine.Honest

/-- Actions that only let time pass are honest. -/
theorem Engine.honest_of_reliable {engine : Engine} (reliable : engine.catalogue.Reliable) :
    engine.Honest := by
  intro actionType action known config context s
  obtain ⟨clock, htick⟩ := reliable.tick _ _ known config context s
  rw [htick]
  exact .refl s.tables

/-- Whatever the use, `t.Leads t'` for the tables `t` before and `t'` after it. -/
theorem Use.Honest.leads {use : Use} {w : World} (honest : use.Honest w) :
    w.storage.tables.Leads (use.run w).storage.tables := by
  cases use with
  | author op => exact Authoring.operates_run op w.storage
  | reap workflow olderThan => exact operates_reapStale workflow olderThan w.storage
  | execute engine workflow triggerType payload =>
    exact Engine.leads_execute (honest engine rfl) workflow triggerType payload w
  | fire engine organization triggerType payload =>
    exact Engine.fire_relates (T := fun w w' => w.storage.tables.Leads w'.storage.tables)
      (fun w => .refl w.storage.tables) (fun h h' => h.trans h') (fun w _ => .refl w.storage.tables)
      w fun workflow _ _ w => Engine.leads_execute (honest engine rfl) workflow _ payload w

/-- Uses one after the other are operations one after the other. -/
theorem Later.leads {t t' : Tables} (later : Later Use.Honest t t') : t.Leads t' := by
  induction later with
  | refl => exact .refl t
  | step use before honest ih => exact ih.trans honest.leads

namespace Tables

/-! ### Finality -/

/-- For all operations `ops`, whoever asks for them:

* the row `t.executions[i]?` is in `t.afterAll ops` at `i`, and the row `t.getExecution id` is found
  there under `id`: the same row if it is closed, and else with the same identifier, workflow,
  trigger and start (`Precedes`);
* a write that would close a running row is accepted if there is none among `ops`, and else refused
  with the status that the first of them has given to the row.

If tables `t'` come `Later` by `Honest` uses, some `ops` lead to them, so that `t'` is such a
`t.afterAll ops`. -/
theorem executions_are_final (t : Tables) (ops : List Operation) :
    (∀ (i : Nat) (e : Execution), t.executions[i]? = some e →
      ∃ e', (t.afterAll ops).executions[i]? = some e' ∧ e.Precedes e') ∧
    (∀ id (e : Execution), t.getExecution id = some e →
      ∃ e', (t.afterAll ops).getExecution id = some e' ∧ e.Precedes e') ∧
    (∀ row e, t.getExecution row.id = some e → e.status = .running →
      row.status.isTerminal = true →
      (ops.findSome? (Operation.closing? row.id) = none →
        ∃ t', (t.afterAll ops).updateExecution row = .ok ((), t') ∧
          t'.getExecution row.id = some (written e row)) ∧
      ∀ first, ops.findSome? (Operation.closing? row.id) = some first →
        (t.afterAll ops).updateExecution row =
          .error (.conflict ("execution " ++ row.id.text ++ " is already "
            ++ Vocabulary.text first.status))) ∧
    ∀ t', Later Use.Honest t t' →
      t.Leads t' ∧
      (∀ (i : Nat) (e : Execution), t.executions[i]? = some e →
        ∃ e', t'.executions[i]? = some e' ∧ e.Precedes e') ∧
      ∀ id (e : Execution), t.getExecution id = some e →
        ∃ e', t'.getExecution id = some e' ∧ e.Precedes e' := by
  refine ⟨fun i e h => getElem?_afterAll ops h, fun id e h => getExecution_afterAll ops h,
    fun row e hfound hrunning _ => updateExecution_afterAll ops hfound hrunning,
    fun t' later => ?_⟩
  have hleads := later.leads
  exact ⟨hleads, fun i e h => hleads.executions h, fun id e h => hleads.getExecution h⟩

/-- The reaper closes the second of `fourRows`, and the row remains as the reaper has left it when a
workflow is then run with the built-in actions. -/
theorem reaped_row_remains :
    let reaped := (Use.reap Uuid.nil 60).run (World.ofStorage fourRows)
    ∃ row, reaped.storage.tables.getExecution (Uuid.ofHalves 0 2) = some row ∧
      row.status = .failed ∧
      ∀ workflow triggerType payload,
        ((Use.execute ⟨Builtin.catalogue, 64⟩ workflow triggerType payload).run
          reaped).storage.tables.getExecution (Uuid.ofHalves 0 2) = some row := by
  intro reaped
  refine ⟨_, rfl, rfl, fun workflow triggerType payload => ?_⟩
  have honest :
      (Use.execute ⟨Builtin.catalogue, 64⟩ workflow triggerType payload).Honest reaped := by
    rintro engine ⟨⟩
    exact Engine.honest_of_reliable Builtin.reliable_catalogue
  obtain ⟨-, -, -, hlater⟩ := executions_are_final reaped.storage.tables []
  obtain ⟨-, -, hfound⟩ := hlater _ (.step _ .refl honest)
  obtain ⟨row, hrow, hprecedes⟩ := hfound (Uuid.ofHalves 0 2) _ rfl
  rw [hrow, hprecedes.final rfl]

end Tables

end TriggerFlow
