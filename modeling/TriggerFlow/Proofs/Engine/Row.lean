import TriggerFlow.Proofs.Engine.Walks
import TriggerFlow.Proofs.Store.Rows
/-!
# The row of a run

In a store without outages a run can write its row as long as it is there and says that the run is
in progress (`Storage.Runs`).  A run that is `Run.Sound` at first is so until it ends, whatever ends
it (`Traverses.soundlyEnded`), provided that no action closes or removes the row
(`Engine.Considerate`).
-/

namespace TriggerFlow

/-- The store has no outages, and under `id` a row with status `running`. -/
structure Storage.Runs (s : Storage) (id : ExecutionId) : Prop where
  calm : s.outages = []
  running : ∃ row, s.tables.getExecution id = some row ∧ row.status = .running

/-- No action of the catalogue ends `Storage.Runs` for the row `id`. -/
def Engine.Considerate (engine : Engine) (id : ExecutionId) : Prop :=
  ∀ actionType action, engine.catalogue.action? actionType = some action →
    ∀ config context s, Storage.Runs s id → Storage.Runs (action.run config context s).2 id

/-- The run `id` is in progress, without an error so far, and so is its row in the store. -/
structure Run.Sound (id : ExecutionId) (r : Run) : Prop where
  id_eq : r.execution.id = id
  status : r.execution.status = .running
  error : r.execution.error = none
  stored : r.world.storage.Runs id

variable {id : ExecutionId} {s s' : Storage} {r : Run} {engine : Engine}

theorem Storage.updateExecution_of_runs (row : Execution) (h : s.Runs row.id) :
    ∃ stored t, updateExecution row s = .ok () { s with tables := t } ∧
      t.getExecution row.id = some (Tables.written stored row) := by
  obtain ⟨calm, stored, hfound, hrunning⟩ := h
  have hid : stored.id = row.id := Tables.id_of_getExecution hfound
  refine ⟨stored, _, ?_, Tables.getExecution_replaceFirst hfound hid⟩
  rw [updateExecution, bind_of_ok (attempt_of_calm calm _)]
  unfold change
  dsimp only
  rw [Tables.updateExecution_of_running hfound hrunning]

namespace Engine

theorem sound_after (h : r.Sound id) (happening : Happening) : (r.after happening).Sound id :=
  ⟨h.id_eq, h.status, h.error, h.stored⟩

/-- After a call of a considerate action the store still `Runs` the row. -/
theorem Considerate.runs {t : String} {a : Action} {config : Fields} {verdict : Verdict}
    (considerate : engine.Considerate id) (h : r.Sound id)
    (known : engine.catalogue.action? t = some a)
    (ran : a.run config r.execution.context r.world.storage = (verdict, s)) : s.Runs id := by
  have hruns := considerate t a known config r.execution.context r.world.storage h.stored
  rwa [ran] at hruns

/-- Where the store `Runs` the row, `updateExecution` takes a result, and the store goes on to do
so. -/
theorem updateExecution_recordAction (h : r.Sound id) (hruns : s.Runs id) (node : NodeId)
    (result : Json) :
    ∃ s', Storage.updateExecution (r.execution.recordAction node result) s = .ok () s' ∧
      s'.Runs id := by
  have hid : (r.execution.recordAction node result).id = id := h.id_eq
  obtain ⟨stored, t, hwritten, hfound⟩ := Storage.updateExecution_of_runs
    (r.execution.recordAction node result) (s := s) (by rwa [hid])
  rw [hid] at hfound
  exact ⟨_, hwritten, hruns.calm, _, hfound, h.status⟩

/-- A node that acts well keeps a run `Sound`. -/
theorem sound_of_acts {n : Node} {branch : Option ConditionType} {r' : Run}
    (considerate : engine.Considerate id) (h : r.Sound id)
    (hacts : Acts engine n r (.ok branch r')) : r'.Sound id := by
  cases hacts with
  | trigger => exact h
  | condition => exact sound_after h _
  | @completed t a s result s' ms kind typed known valid ran kept =>
    have hruns : s.Runs id := considerate.runs h known ran
    obtain ⟨s₁, hwritten, hruns'⟩ := updateExecution_recordAction h hruns n.id result
    rw [hwritten] at kept
    obtain ⟨-, rfl⟩ := EStateM.Result.ok.inj kept
    exact ⟨h.id_eq, h.status, h.error, hruns'⟩

/-- Where a run is `Sound`, a node never fails with a `store` error. -/
theorem no_store_error_of_acts {n : Node} {e : StoreError} {r' : Run}
    (considerate : engine.Considerate id) (h : r.Sound id) :
    ¬ Acts engine n r (.error (.store e) r') := by
  intro hacts
  cases hacts with
  | @unkept t a s result e s' kind typed known valid ran refused =>
    have hruns : s.Runs id := considerate.runs h known ran
    obtain ⟨s₁, hwritten, -⟩ := updateExecution_recordAction h hruns n.id result
    rw [hwritten] at refused
    simp at refused

/-! ### Whatever ends the run -/

section Ends

variable {g : Graph} {n : Node} {path : List NodeId} {source : NodeId}
  {branch : Option ConditionType} {edges : List Connection} {ending : Ending}

/-- The run is still `Sound`, and if it has ended with an error then not with one of the store. -/
structure SoundlyEnded {α : Type} (id : ExecutionId)
    (result : EStateM.Result ExecutionError Run α) : Prop where
  sound : (leftBy result).Sound id
  not_store : ∀ e r', result ≠ .error (.store e) r'

theorem soundlyEnded_of_acts {result : EStateM.Result ExecutionError Run (Option ConditionType)}
    (considerate : engine.Considerate id) (sound : r.Sound id) (h : Acts engine n r result) :
    SoundlyEnded id result := by
  have hwith {s : Storage} (hruns : s.Runs id) : (r.withStorage s).Sound id :=
    ⟨sound.id_eq, sound.status, sound.error, hruns⟩
  cases result with
  | ok branch r' => exact ⟨sound_of_acts considerate sound h, by simp⟩
  | error e r' =>
    refine ⟨?_, ?_⟩
    · cases h with
      | untyped => exact sound
      | unknown => exact sound
      | invalid => exact sound
      | failed kind typed known valid ran => exact hwith (considerate.runs sound known ran)
      | crashed kind typed known valid ran => exact hwith (considerate.runs sound known ran)
      | unkept kind typed known valid ran refused =>
        exact absurd (.unkept kind typed known valid ran refused)
          (no_store_error_of_acts considerate sound)
    · rintro e' r'' hstore
      rw [hstore] at h
      exact no_store_error_of_acts considerate sound h

/-- Where actions are `Considerate` a walk ends soundly, whatever ends it. -/
theorem Walks.soundlyEnded (h : Walks engine g path source branch edges r ending)
    (considerate : engine.Considerate id) (sound : r.Sound id) : SoundlyEnded id ending := by
  induction h with
  | done => exact ⟨sound, by simp⟩
  | skip untaken rest ih => exact ih (sound_after sound _)
  | refuse taken refusal =>
    refine ⟨sound, ?_⟩
    rintro e' r' ⟨⟩
    rcases entry_eq_error_iff.mp refusal with ⟨-, he⟩ | ⟨-, -, he⟩ | ⟨-, -, -, he⟩ <;> cases he
  | fail taken admitted failed =>
    have hacts := soundlyEnded_of_acts considerate (sound_after sound _) (acts_of_act failed)
    refine ⟨hacts.sound, ?_⟩
    rintro e' r'' ⟨⟩
    exact hacts.not_store _ _ rfl
  | stop taken admitted acted down ih =>
    have hacts := soundlyEnded_of_acts considerate (sound_after sound _) (acts_of_act acted)
    exact ih hacts.sound
  | pass taken admitted acted down rest ihdown ihrest =>
    have hacts := soundlyEnded_of_acts considerate (sound_after sound _) (acts_of_act acted)
    exact ihrest (ihdown hacts.sound).sound

/-- Where actions are `Considerate` a traversal ends soundly.  Without outages the graph is read
without a trace, so that the walk begins where the run did. -/
theorem Traverses.soundlyEnded {workflow : WorkflowId} (h : Traverses engine workflow r ending)
    (considerate : engine.Considerate id) (sound : r.Sound id) : SoundlyEnded id ending := by
  have hload := Graph.load_of_calm sound.stored.calm workflow
  have hsame {g : Graph} {s : Storage}
      (loaded : Graph.load workflow r.world.storage = .ok g s) : r.withStorage s = r := by
    rw [hload] at loaded
    obtain ⟨-, rfl⟩ := EStateM.Result.ok.inj loaded
    rfl
  cases h with
  | reserved => exact ⟨sound, by simp⟩
  | unread free refused =>
    rw [hload] at refused
    cases refused
  | unstarted free loaded idle =>
    rw [hsame loaded]
    exact ⟨sound, by simp⟩
  | walked free loaded started walk =>
    rw [hsame loaded] at walk
    exact walk.soundlyEnded considerate sound

end Ends

/-! ### The beginning -/

/-- In a store without outages `Run.begin` succeeds with the next identifier of the supply, and the
run is `Sound` if no row has this identifier yet. -/
theorem begin_of_calm {w : World} (workflow : Workflow) (triggerType : String) (payload : Fields)
    (calm : w.storage.outages = []) :
    ∃ r, Run.begin workflow triggerType payload w = .ok r r.world ∧
      r.execution.id = (w.storage.ids.next .execution).1 ∧
      r.execution.triggerData = payload ∧ r.world.storage.outages = [] ∧
      ((∀ row ∈ w.storage.tables.executions, row.id ≠ r.execution.id) →
        r.Sound r.execution.id) := by
  have hinsert := Storage.insertExecution_of_calm calm
    (Execution.start Uuid.nil workflow.id triggerType payload w.now)
  refine ⟨_, begin_of_inserted hinsert, rfl, rfl, calm, ?_⟩
  intro hnew
  -- no earlier row has the identifier, so that the new one is found
  have hnone : (w.storage.tables.executions.find? fun e =>
      e.id == (w.storage.ids.next .execution).1) = none := by
    rw [List.find?_eq_none]
    intro row hrow
    simpa using hnew row hrow
  have hfound : Tables.getExecution { w.storage.tables with
      executions := w.storage.tables.executions ++
        [{ Execution.start Uuid.nil workflow.id triggerType payload w.now with
          id := (w.storage.ids.next .execution).1 }] } (w.storage.ids.next .execution).1
      = some { Execution.start Uuid.nil workflow.id triggerType payload w.now with
          id := (w.storage.ids.next .execution).1 } := by
    rw [Tables.getExecution, List.find?_append, hnone]
    simp
  exact ⟨rfl, rfl, rfl, calm, _, hfound, rfl⟩

end Engine

end TriggerFlow
