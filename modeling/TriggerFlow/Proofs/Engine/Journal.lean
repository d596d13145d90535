import TriggerFlow.Proofs.Engine.Walks
/-!
# What a run reports

`Run.Reports r r' hs`: between the states `r` and `r'` of a run exactly the happenings `hs` are
reported, in this order and in the name of the run.  Only `Run.after` reports anything
(`reports_after`); whatever the store does in the meantime leaves no event.
-/

namespace TriggerFlow

/-- Between the states `r` and `r'` of a run exactly the happenings `hs` are reported, in this order
and in the name of the run. -/
structure Run.Reports (r r' : Run) (hs : List Happening) : Prop where
  id_eq : r'.execution.id = r.execution.id
  news : ∃ news : List Event, news.map Event.happening = hs ∧
    (∀ e ∈ news, e.execution = r.execution.id) ∧ r'.world.events = r.world.events ++ news

namespace Run

variable {r r' r'' : Run} {hs hs' : List Happening}

theorem events_report (w : World) (id : ExecutionId) (h : Happening) :
    (w.report id h).events = w.events ++ [⟨id, h, w.now⟩] := by
  rw [World.events, World.report, List.reverse_cons, World.events]

theorem Reports.refl (r : Run) : Reports r r [] :=
  ⟨rfl, [], rfl, by simp, by simp⟩

theorem Reports.trans (h : Reports r r' hs) (h' : Reports r' r'' hs') :
    Reports r r'' (hs ++ hs') := by
  obtain ⟨id_eq, news, rfl, hid, hevents⟩ := h
  obtain ⟨id_eq', news', rfl, hid', hevents'⟩ := h'
  refine ⟨id_eq'.trans id_eq, news ++ news', by simp, ?_, by simp [hevents, hevents']⟩
  intro e he
  rcases List.mem_append.mp he with he | he
  · exact hid e he
  · exact (hid' e he).trans id_eq

theorem reports_after (r : Run) (h : Happening) : Reports r (r.after h) [h] :=
  ⟨rfl, [⟨r.execution.id, h, r.world.now⟩], rfl, by simp, events_report _ _ _⟩

theorem reports_withStorage (r : Run) (s : Storage) : Reports r (r.withStorage s) [] :=
  ⟨rfl, [], rfl, by simp, by simp [withStorage, World.events]⟩

theorem reports_recording (r : Run) (node : NodeId) (result : Json) :
    Reports r (r.recording node result) [] :=
  ⟨rfl, [], rfl, by simp, by simp [recording]⟩

/-- What is reported is determined by the two states. -/
theorem Reports.unique (h : Reports r r' hs) (h' : Reports r r' hs') : hs = hs' := by
  obtain ⟨-, news, rfl, -, hevents⟩ := h
  obtain ⟨-, news', rfl, -, hevents'⟩ := h'
  rw [List.append_cancel_left (hevents.symm.trans hevents')]

end Run

/-! ### What is reported between two worlds -/

/-- The events of `w'` are those of `w` and further ones, of whose happenings `Q` holds. -/
def World.Tells (Q : Happening → Prop) (w w' : World) : Prop :=
  ∃ news, w'.events = w.events ++ news ∧ ∀ e ∈ news, Q e.happening

namespace World.Tells

variable {Q Q' : Happening → Prop} {w w' w'' : World}

theorem of_eq (h : w'.events = w.events) : w.Tells Q w' :=
  ⟨[], by rw [h, List.append_nil], by simp⟩

theorem trans (h : w.Tells Q w') (h' : w'.Tells Q w'') : w.Tells Q w'' := by
  obtain ⟨news, hevents, hnews⟩ := h
  obtain ⟨news', hevents', hnews'⟩ := h'
  refine ⟨news ++ news', ?_, List.forall_mem_append.mpr ⟨hnews, hnews'⟩⟩
  rw [hevents', hevents, List.append_assoc]

theorem mono (h : w.Tells Q w') (himp : ∀ x, Q x → Q' x) : w.Tells Q' w' := by
  obtain ⟨news, hevents, hnews⟩ := h
  exact ⟨news, hevents, fun e he => himp _ (hnews e he)⟩

end World.Tells

namespace Engine

variable {engine : Engine} {workflow : Workflow} {triggerType : String} {payload : Fields}
  {w w' : World} {r : Run}

/-! ### All events of a run -/

/-- The report with which `conclude` ends: `executionCompleted` or `executionFailed`, with the time
since `started`. -/
def outcome (started : Timestamp) : Ending → Happening
  | .ok () r => .executionCompleted (started.millisSince r.world.now)
  | .error e r => .executionFailed e.message (started.millisSince r.world.now)

/-- The row that `conclude` writes: the execution of the run, completed or failed now. -/
def closing : Ending → Execution
  | .ok () r => r.execution.complete r.world.now
  | .error e r => r.execution.fail e.message r.world.now

theorem closing_id (ending : Ending) : (closing ending).id = (leftBy ending).execution.id := by
  cases ending <;> rfl

theorem closing_context (ending : Ending) :
    (closing ending).context = (leftBy ending).execution.context := by
  cases ending <;> rfl

theorem closing_triggerData (ending : Ending) :
    (closing ending).triggerData = (leftBy ending).execution.triggerData := by
  cases ending <;> rfl

/-- Concluding a run is reporting its `outcome` and then recording its `closing` row. -/
theorem conclude_eq (started : Timestamp) (ending : Ending) :
    conclude started ending = conclude.record
      ((leftBy ending).world.report (leftBy ending).execution.id (outcome started ending))
      (closing ending) := by
  cases ending <;> rfl

theorem journal_record (w : World) (row : Execution) :
    (conclude.record w row).journal = w.journal := by
  unfold conclude.record
  split <;> rfl

theorem storage_record (w : World) (row : Execution) :
    (conclude.record w row).storage = leftBy (Storage.updateExecution row w.storage) := by
  unfold conclude.record
  split <;> next h => rw [h]; rfl

/-- The `outcome` is the last event, after those of the ending. -/
theorem events_conclude (started : Timestamp) (ending : Ending) :
    (conclude started ending).events = (leftBy ending).world.events ++
      [⟨(leftBy ending).execution.id, outcome started ending, (leftBy ending).world.now⟩] := by
  rw [conclude_eq, World.events, journal_record]
  exact Run.events_report _ _ _

/-- The write of the `closing` row is all that `conclude` does to the store. -/
theorem storage_conclude (started : Timestamp) (ending : Ending) :
    (conclude started ending).storage =
      leftBy (Storage.updateExecution (closing ending) (leftBy ending).world.storage) := by
  rw [conclude_eq, storage_record]
  rfl

/-- If `Run.begin` fails, `execute` reports nothing. -/
theorem events_execute_of_refused {e : StoreError}
    (h : Run.begin workflow triggerType payload w = .error e w') :
    (leftBy (engine.execute workflow triggerType payload w)).events = w.events := by
  obtain ⟨hjournal, -⟩ := begin_eq_error h
  rw [execute_apply, h]
  dsimp only
  rw [leftBy_error, World.events, hjournal, World.events]

/-- A run reports in its own name `executionStarted`, the happenings `hs` of its traversal, and its
`outcome`. -/
theorem news_execute (h : Run.begin workflow triggerType payload w = .ok r w')
    {hs : List Happening}
    (hreports : Run.Reports r (leftBy (engine.traverse workflow.id r)) hs) :
    ∃ news, (leftBy (engine.execute workflow triggerType payload w)).events = w.events ++ news ∧
      (∀ x ∈ news, x.execution = r.execution.id) ∧
      news.map Event.happening = .executionStarted workflow.id triggerType ::
        (hs ++ [outcome w.now (engine.traverse workflow.id r)]) := by
  obtain ⟨s, -, hworld, -⟩ := begin_eq_ok h
  obtain ⟨hid, news, rfl, hnews, hevents⟩ := hreports
  have hstart : r.world.events = w.events ++
      [⟨r.execution.id, .executionStarted workflow.id triggerType, s.clock⟩] := by
    rw [hworld, Run.events_report]
    rfl
  rw [execute_apply, h]
  dsimp only
  rw [leftBy_ok, events_conclude, hevents, hstart, List.append_assoc, List.append_assoc]
  refine ⟨_, rfl, ?_, by simp⟩
  intro x hx
  simp only [List.mem_append, List.mem_singleton] at hx
  rcases hx with rfl | hx | rfl
  · rfl
  · exact hnews x hx
  · exact hid

theorem events_execute (h : Run.begin workflow triggerType payload w = .ok r w')
    {hs : List Happening}
    (hreports : Run.Reports r (leftBy (engine.traverse workflow.id r)) hs) :
    ∃ news, (leftBy (engine.execute workflow triggerType payload w)).events = w.events ++ news ∧
      news.map Event.happening = .executionStarted workflow.id triggerType ::
        (hs ++ [outcome w.now (engine.traverse workflow.id r)]) := by
  obtain ⟨news, hevents, -, hnews⟩ := news_execute h hreports
  exact ⟨news, hevents, hnews⟩

/-- A fact `Q` that holds of the start, of what a traversal reports and of every outcome holds of
all that `execute` reports. -/
theorem tells_execute (engine : Engine) (workflow : Workflow) (triggerType : String)
    (payload : Fields) (w : World) {Q : Happening → Prop}
    (start : Q (.executionStarted workflow.id triggerType))
    (inner : ∀ r w', Run.begin workflow triggerType payload w = .ok r w' →
      ∃ hs, Run.Reports r (leftBy (engine.traverse workflow.id r)) hs ∧ ∀ h ∈ hs, Q h)
    (ending : ∀ e, Q (outcome w.now e)) :
    w.Tells Q (leftBy (engine.execute workflow triggerType payload w)) := by
  cases begun : Run.begin workflow triggerType payload w with
  | error e w' => exact .of_eq (events_execute_of_refused begun)
  | ok r w' =>
    obtain ⟨hs, hreports, hinner⟩ := inner r w' begun
    obtain ⟨news, hevents, hnews⟩ := events_execute begun hreports
    refine ⟨news, hevents, fun e he => ?_⟩
    have hmem : e.happening ∈ news.map Event.happening := List.mem_map_of_mem he
    rw [hnews, List.mem_cons, List.mem_append, List.mem_singleton] at hmem
    rcases hmem with hstart | hinside | hend
    · rw [hstart]
      exact start
    · exact hinner _ hinside
    · rw [hend]
      exact ending _

/-- The row that `Run.begin` inserts is no part of any graph. -/
theorem ofTables_begin (h : Run.begin workflow triggerType payload w = .ok r w') (id : WorkflowId) :
    Graph.ofTables r.world.storage.tables id = Graph.ofTables w.storage.tables id := by
  obtain ⟨s, hinsert, hworld, -⟩ := begin_eq_ok h
  obtain ⟨-, htables⟩ := Storage.insertExecution_eq_ok hinsert
  rw [hworld, World.report, htables]
  rfl

end Engine

end TriggerFlow
