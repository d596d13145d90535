import TriggerFlow.Proofs.Engine.Deeds
import TriggerFlow.Proofs.Store.Rows
/-!
# Every run is settled

A run is refused before it begins, or it has one row and one outcome, whatever happens in between
(`execute_settles`): the store may refuse any call, and actions may fail or crash.  The outcome is
reported last, and if the store takes the `closing` row it says the same (`Told`).

If no action touches the rows of executions (`Discreet`), the row that the store has in the end is
the one that it has taken last (`Steps.owns`).
-/

namespace TriggerFlow.Engine

variable {engine : Engine} {r : Run} {past ds : List Deed} {ending : Ending}
  {others : List Execution} {row : Execution}

/-! ### The row that the store has taken last -/

/-- No action changes `tables.executions`. -/
def Discreet (engine : Engine) : Prop :=
  ∀ actionType action, engine.catalogue.action? actionType = some action →
    ∀ config context (s : Storage),
      (action.run config context s).2.tables.executions = s.tables.executions

/-- The executions of the store are `others ++ [row]`, where `row` is what was kept last of the run
and agrees with its execution up to the context. -/
structure Owns (others : List Execution) (past : List Deed) (r : Run) (row : Execution) : Prop where
  kept : keptLast? past = some row
  rows : r.world.storage.tables.executions = others ++ [row]
  same : row = { r.execution with context := row.context }
  others_ne : ∀ e ∈ others, e.id ≠ r.execution.id

theorem keptLast?_append_of_nil (h : ds.filterMap Deed.kept? = []) :
    keptLast? (past ++ ds) = keptLast? past := by
  rw [keptLast?, List.filterMap_append, h, List.append_nil, keptLast?]

theorem keptLast?_append_of_eq (h : ds.filterMap Deed.kept? = [row]) :
    keptLast? (past ++ ds) = some row := by
  rw [keptLast?, List.filterMap_append, h, List.getLast?_concat]

theorem replaceFirst_concat {p : Execution → Bool} {e : Execution}
    (hothers : ∀ e ∈ others, p e = false) (he : p e = true) :
    Tables.replaceFirst p row (others ++ [e]) = others ++ [row] := by
  induction others with
  | nil => simp [Tables.replaceFirst, he]
  | cons b bs ih =>
    obtain ⟨hb, hbs⟩ := List.forall_mem_cons.mp hothers
    rw [List.cons_append, Tables.replaceFirst, hb, if_neg Bool.false_ne_true, ih hbs,
      List.cons_append]

/-- An accepted `updateExecution` writes the last of the rows, if it is the one with the identifier.
-/
theorem executions_of_accepted {s s' : Storage} {e : Execution}
    (h : Storage.updateExecution row s = .ok () s') (rows : s.tables.executions = others ++ [e])
    (hothers : ∀ e ∈ others, e.id ≠ row.id) (hid : e.id = row.id) :
    s'.tables.executions = others ++ [Tables.written e row] := by
  obtain ⟨stored, hfound, -, htables⟩ := Storage.updateExecution_eq_ok h
  have hnone : others.find? (fun e => e.id == row.id) = none := by
    rw [List.find?_eq_none]
    intro e he
    simpa using hothers e he
  rw [Tables.getExecution, rows, List.find?_append, hnone, Option.none_or,
    List.find?_cons_of_pos (by simp [hid])] at hfound
  obtain rfl := Option.some.inj hfound
  rw [htables, rows]
  exact replaceFirst_concat (fun e he => by simpa using hothers e he) (by simp [hid])

/-- Deeds of which none is `kept?` leave the run with its own row. -/
theorem Owns.more {r' : Run} (owns : Owns others past r row) (hds : ds.filterMap Deed.kept? = [])
    (rows : r'.world.storage.tables.executions = r.world.storage.tables.executions)
    (same : r'.execution = { r.execution with context := r'.execution.context }) :
    Owns others (past ++ ds) r' row := by
  refine ⟨?_, rows.trans owns.rows, ?_, ?_⟩
  · rw [keptLast?_append_of_nil hds, owns.kept]
  · rw [same]
    exact owns.same
  · rw [same]
    exact owns.others_ne

/-- A deed that keeps the execution of the run makes it the row. -/
theorem Owns.write {r' : Run} {s : Storage} (owns : Owns others past r row)
    (hds : ds.filterMap Deed.kept? = [r'.execution])
    (rows : s.tables.executions = r.world.storage.tables.executions)
    (same : r'.execution = { r.execution with context := r'.execution.context })
    (taken : Storage.updateExecution r'.execution s = .ok () r'.world.storage) :
    Owns others (past ++ ds) r' r'.execution := by
  have hid : r'.execution.id = r.execution.id := by rw [same]
  have hrow : row.id = r'.execution.id := by rw [owns.same, hid]
  have hothers : ∀ e ∈ others, e.id ≠ r'.execution.id := by
    rw [hid]
    exact owns.others_ne
  have hwritten : Tables.written row r'.execution = r'.execution := by
    rw [same, owns.same]
    rfl
  refine ⟨keptLast?_append_of_eq hds, ?_, rfl, hothers⟩
  rw [executions_of_accepted taken (rows.trans owns.rows) hothers hrow, hwritten]

theorem Discreet.executions {t : String} {a : Action} {config : Config} {context : Context}
    {s s' : Storage} {verdict : Verdict} (discreet : engine.Discreet)
    (known : engine.catalogue.action? t = some a)
    (ran : a.run config context s = (verdict, s')) :
    s'.tables.executions = s.tables.executions := by
  have h := discreet t a known config context s
  rwa [ran] at h

/-- If actions are `Discreet`, the run `Owns` its row after all steps. -/
theorem Steps.owns (discreet : engine.Discreet) (h : Steps engine r ds ending)
    (owns : Owns others past r row) : ∃ row', Owns others (past ++ ds) (leftBy ending) row' := by
  induction h generalizing past row with
  | done => exact ⟨row, owns.more rfl rfl rfl⟩
  | halt => exact ⟨row, owns.more rfl rfl rfl⟩
  | @look r s ds ending same rest ih =>
    -- a look may change which calls are refused next, but no rows
    refine ih ⟨owns.kept, ?_, owns.same, owns.others_ne⟩
    rw [← owns.rows, Run.withStorage, same]
  | @report r h ds ending move rest ih =>
    have hnext : Owns others (past ++ [r.reporting h]) (r.after h) row := owns.more rfl rfl rfl
    obtain ⟨row', hends⟩ := ih hnext
    rw [List.append_assoc] at hends
    exact ⟨row', hends⟩
  | fail known ran blame => exact ⟨row, owns.more rfl (discreet.executions known ran) rfl⟩
  | @refuse r node t a config v s e s' known ran refused =>
    refine ⟨row, owns.more rfl ?_ rfl⟩
    rw [leftBy_error, Run.withStorage, Storage.updateExecution_eq_error refused]
    exact discreet.executions known ran
  | @complete r node t a config v s s' ms ds ending known ran kept rest ih =>
    -- the row with the result takes the place of the one before, and the report leaves it there
    have hwritten : Owns others
        (past ++ [.called node r.execution.context (.done v),
          .wrote (r.execution.recordAction node v) true])
        ((r.recording node v).withStorage s') (r.execution.recordAction node v) :=
      owns.write rfl (discreet.executions known ran) rfl kept
    have hreported : Owns others
        (past ++ [.called node r.execution.context (.done v),
          .wrote (r.execution.recordAction node v) true] ++
          [((r.recording node v).withStorage s').reporting (.actionCompleted node t ms)])
        (((r.recording node v).withStorage s').after (.actionCompleted node t ms))
        (r.execution.recordAction node v) := hwritten.more rfl rfl rfl
    obtain ⟨row', hends⟩ := ih hreported
    rw [List.append_assoc, List.append_assoc] at hends
    exact ⟨row', hends⟩

/-! ### The outcome -/

/-- The last event and the row say the same of an ending: `executionCompleted` and `completed`
without an error, or `executionFailed` and `failed` with the message of the error. -/
inductive Told : Ending → Happening → Execution → Prop
  | completed {r ms row} (status : row.status = .completed) (error : row.error = none)
      (time : row.completedAt.isSome = true) : Told (.ok () r) (.executionCompleted ms) row
  | failed {e r ms row} (status : row.status = .failed) (error : row.error = some e.message)
      (time : row.completedAt.isSome = true) :
      Told (.error e r) (.executionFailed e.message ms) row

/-- The `closing` row of a run without an error so far tells its `outcome`. -/
theorem told_closing (started : Timestamp) (stored : Execution)
    (hrun : (leftBy ending).execution.error = none) :
    Told ending (outcome started ending) (Tables.written stored (closing ending)) := by
  cases ending with
  | ok u r => exact .completed rfl hrun rfl
  | error e r => exact .failed rfl rfl rfl

/-- How things stand when a run that was begun is over: `w` is the world before it, `r` the run as
it began, and `w'` the world after it. -/
structure Settled (engine : Engine) (workflow : Workflow) (triggerType : String) (payload : Fields)
    (w : World) (r : Run) (w' : World) : Prop where
  /-- One deed of the run is `inserted`, with the row as it began. -/
  one_row : (engine.deeds workflow triggerType payload w).filterMap Deed.inserted? = [r.execution]
  /-- The row was added behind `w.storage.tables.executions`. -/
  added : ∃ s, Storage.insertExecution
      (Execution.start Uuid.nil workflow.id triggerType payload w.now) w.storage
        = .ok r.execution s ∧
    s.tables = { w.storage.tables with executions := w.storage.tables.executions ++ [r.execution] }
  /-- The events are those of the run: `executionStarted` first, the `outcome` last, and neither of
  them in between. -/
  events : ∃ news inner, w'.events = w.events ++ news ∧
    (∀ x ∈ news, x.execution = r.execution.id) ∧
    news.map Event.happening = .executionStarted workflow.id triggerType ::
      (inner ++ [outcome w.now (engine.traverse workflow.id r)]) ∧
    ∀ h ∈ inner, h.isInner = true
  /-- A call with a `blame?` is what ends the run. -/
  blame : ∀ node context verdict e,
    .called node context verdict ∈ engine.deeds workflow triggerType payload w →
    verdict.blame? node = some e → ∃ r', engine.traverse workflow.id r = .error e r'
  /-- If the store takes the `closing` row, the row found in the end is `Told`. -/
  taken : (leftBy (engine.traverse workflow.id r)).world.storage.accepts
      (closing (engine.traverse workflow.id r)) = true →
    ∃ row, w'.storage.tables.getExecution r.execution.id = some row ∧
      Told (engine.traverse workflow.id r) (outcome w.now (engine.traverse workflow.id r)) row
  /-- If the store refuses the `closing` row, its tables are those at the end of the traversal. -/
  refused : (leftBy (engine.traverse workflow.id r)).world.storage.accepts
      (closing (engine.traverse workflow.id r)) = false →
    w'.storage.tables = (leftBy (engine.traverse workflow.id r)).world.storage.tables
  /-- If actions are `Discreet`, the store has the row behind the others as it has taken it last. -/
  kept : engine.Discreet →
    (∀ e ∈ w.storage.tables.executions, e.id ≠ r.execution.id) →
    ∃ row, keptLast? (engine.deeds workflow triggerType payload w) = some row ∧
      w'.storage.tables.executions = w.storage.tables.executions ++ [row]

/-! ### Every run is settled -/

section Begun

variable {workflow : Workflow} {triggerType : String} {payload : Fields} {w w₀ : World}

theorem deeds_of_begun (h : Run.begin workflow triggerType payload w = .ok r w₀) :
    engine.deeds workflow triggerType payload w =
      [.inserted r.execution, r.reporting (.executionStarted workflow.id triggerType)] ++
        engine.deedsTraversing workflow.id r ++
        [(leftBy (engine.traverse workflow.id r)).reporting
            (outcome w.now (engine.traverse workflow.id r)),
          .wrote (closing (engine.traverse workflow.id r))
            ((leftBy (engine.traverse workflow.id r)).world.storage.accepts
              (closing (engine.traverse workflow.id r)))] := by
  unfold deeds
  rw [h]
  rfl

theorem mem_deedsTraversing_of_called
    (h : Run.begin workflow triggerType payload w = .ok r w₀) {node : NodeId} {context : Context}
    {verdict : Verdict}
    (called : .called node context verdict ∈ engine.deeds workflow triggerType payload w) :
    .called node context verdict ∈ engine.deedsTraversing workflow.id r := by
  rw [deeds_of_begun h] at called
  simpa [Run.reporting] using called

theorem inserted_of_begun (h : Run.begin workflow triggerType payload w = .ok r w₀) :
    (engine.deeds workflow triggerType payload w).filterMap Deed.inserted? = [r.execution] := by
  have hnone := (steps_traverse engine workflow.id r).inserted_nil
  rw [deeds_of_begun h, List.filterMap_append, List.filterMap_append, hnone]
  rfl

/-- A run that begins `Owns` the row that it inserted. -/
theorem owns_of_begun (h : Run.begin workflow triggerType payload w = .ok r w₀)
    (new : ∀ e ∈ w.storage.tables.executions, e.id ≠ r.execution.id) :
    Owns w.storage.tables.executions
      [.inserted r.execution, r.reporting (.executionStarted workflow.id triggerType)] r
      r.execution := by
  obtain ⟨s, hinsert, hworld, -⟩ := begin_eq_ok h
  obtain ⟨-, htables⟩ := Storage.insertExecution_eq_ok hinsert
  refine ⟨rfl, ?_, rfl, new⟩
  rw [hworld, World.report, htables]

/-- The executions at the end of a run of `Discreet` actions: those before it, and the row that was
kept last. -/
theorem kept_of_begun (h : Run.begin workflow triggerType payload w = .ok r w₀)
    (discreet : engine.Discreet)
    (new : ∀ e ∈ w.storage.tables.executions, e.id ≠ r.execution.id) :
    ∃ row, keptLast? (engine.deeds workflow triggerType payload w) = some row ∧
      (conclude w.now (engine.traverse workflow.id r)).storage.tables.executions =
        w.storage.tables.executions ++ [row] := by
  obtain ⟨row, howns⟩ :=
    (steps_traverse engine workflow.id r).owns discreet (owns_of_begun h new)
  rw [deeds_of_begun h, storage_conclude]
  generalize engine.traverse workflow.id r = ending at howns ⊢
  cases htaken : (leftBy ending).world.storage.accepts (closing ending) with
  | false =>
    -- the row stays as it was taken in the course of the run
    obtain ⟨e, s', hrefused⟩ := Storage.accepts_eq_false_iff.mp htaken
    refine ⟨row, ?_, ?_⟩
    · rw [keptLast?_append_of_nil rfl, howns.kept]
    · rw [hrefused, leftBy_error, Storage.updateExecution_eq_error hrefused, howns.rows]
  | true =>
    obtain ⟨s', haccepted⟩ := Storage.accepts_eq_true_iff.mp htaken
    have hsame : closing ending = Tables.written row (closing ending) := by
      rw [howns.same]
      cases ending <;> rfl
    have hid : row.id = (closing ending).id := by
      rw [howns.same]
      cases ending <;> rfl
    refine ⟨closing ending, ?_, ?_⟩
    · exact keptLast?_append_of_eq rfl
    · have hothers : ∀ e ∈ w.storage.tables.executions, e.id ≠ (closing ending).id := by
        rw [← hid, howns.same]
        exact howns.others_ne
      rw [haccepted, leftBy_ok, executions_of_accepted haccepted howns.rows hothers hid, ← hsame]

/-- A run that begins is `Settled` when it has been concluded. -/
theorem settled_of_begun (h : Run.begin workflow triggerType payload w = .ok r w₀) :
    Settled engine workflow triggerType payload w r
      (conclude w.now (engine.traverse workflow.id r)) := by
  have hsteps := steps_traverse engine workflow.id r
  have hexecution := hsteps.execution_eq
  obtain ⟨s, hinsert, -, -⟩ := begin_eq_ok h
  obtain ⟨hrow, htables⟩ := Storage.insertExecution_eq_ok hinsert
  obtain ⟨news, hevents, hnames, hnews⟩ := news_execute h hsteps.reports.1
  rw [execute_apply, h] at hevents
  refine ⟨inserted_of_begun h, ⟨s, hinsert, htables⟩,
    ⟨news, _, hevents, hnames, hnews, hsteps.reports.2⟩, ?_, ?_, ?_, kept_of_begun h⟩
  · intro node context verdict e called blame
    exact hsteps.blames (mem_deedsTraversing_of_called h called) blame
  · -- the last write is accepted, and the row found is what was written
    intro htaken
    obtain ⟨s', haccepted⟩ := Storage.accepts_eq_true_iff.mp htaken
    obtain ⟨stored, hstored⟩ := Storage.getExecution_of_updateExecution haccepted
    have hid : (closing (engine.traverse workflow.id r)).id = r.execution.id := by
      rw [closing_id, hexecution]
    have herror : (leftBy (engine.traverse workflow.id r)).execution.error = none := by
      rw [hexecution, hrow]
      rfl
    rw [hid] at hstored
    refine ⟨_, ?_, told_closing w.now stored herror⟩
    rw [storage_conclude, haccepted]
    exact hstored
  · -- the last write is refused and leaves the tables alone
    intro hrefused
    obtain ⟨e, s', hrefused⟩ := Storage.accepts_eq_false_iff.mp hrefused
    rw [storage_conclude, hrefused]
    exact Storage.updateExecution_eq_error hrefused

end Begun

/-- Every run is refused or settled.  `execute` fails exactly if `insertExecution` refuses the row,
with the same error, and then the events and the tables are as they were; otherwise it answers with
the identifier of its row, and all is `Settled`. -/
theorem execute_settles (engine : Engine) (workflow : Workflow) (triggerType : String)
    (payload : Fields) (w : World) :
    (∀ e, (∃ w', engine.execute workflow triggerType payload w = .error e w') ↔
      ∃ s, Storage.insertExecution
        (Execution.start Uuid.nil workflow.id triggerType payload w.now) w.storage = .error e s) ∧
    (∀ e w', engine.execute workflow triggerType payload w = .error e w' →
      w'.events = w.events ∧ w'.storage.tables = w.storage.tables) ∧
    ∀ id w', engine.execute workflow triggerType payload w = .ok id w' →
      ∃ r, Run.begin workflow triggerType payload w = .ok r r.world ∧ r.execution.id = id ∧
        Settled engine workflow triggerType payload w r w' := by
  rw [execute_apply]
  -- once the row is inserted, whatever happens is told by it and not by an error
  cases hinsert : Storage.insertExecution
      (Execution.start Uuid.nil workflow.id triggerType payload w.now) w.storage with
  | error e s =>
    have hbegin := begin_of_refused hinsert
    rw [hbegin]
    refine ⟨?_, ?_, by simp⟩
    · intro e'
      simp
    · rintro e' w' ⟨⟩
      obtain ⟨hjournal, htables⟩ := begin_eq_error hbegin
      exact ⟨by rw [World.events, hjournal, World.events], htables⟩
  | ok row s =>
    have hbegin := begin_of_inserted hinsert
    rw [hbegin]
    refine ⟨by simp, by simp, ?_⟩
    rintro id w' ⟨⟩
    exact ⟨_, rfl, rfl, settled_of_begun hbegin⟩

end TriggerFlow.Engine
