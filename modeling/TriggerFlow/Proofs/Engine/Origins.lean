import TriggerFlow.Proofs.Engine.Contexts
import TriggerFlow.Proofs.Engine.Settlement
/-!
# Where the results on a row come from

The results on a row should be those of the actions that have been called in its run.  From its
first result on a run sees to this itself.  But it begins with its payload for a context, and when
it refuses a payload that uses `actionsKey`, this is what is written on the row.  Hence the results
are those of the run if and only if not `BringsResults payload` (`origins_closing`,
`Origins.accountsFor_iff`).

This is about what a run writes.  It stands on the row in the end if the store refuses none of it
(`origins_of_execute`), which is so where actions are considerate (`unrefused_of_considerate`).
-/

namespace TriggerFlow

open Execution (collected contextOf heldIn)

variable {ds : List Deed} {d : Deed} {node : NodeId} {payload : Fields} {row : Execution}

/-! ### Nodes that have acted -/

/-- A call of the node's action has answered `.done v` for some `v`. -/
def Acted (ds : List Deed) (node : NodeId) : Prop :=
  ∃ context v, .called node context (.done v) ∈ ds

@[simp] theorem not_acted_nil : ¬ Acted [] node := by simp [Acted]

theorem acted_cons_iff :
    Acted (d :: ds) node ↔ (∃ context v, d = .called node context (.done v)) ∨ Acted ds node := by
  simp only [Acted, List.mem_cons, exists_or, eq_comm]

theorem acted_iff_exists_result : Acted ds node ↔ ∃ v, (node, v) ∈ resultsOf ds := by
  induction ds with
  | nil => simp [resultsOf]
  | cons d ds ih =>
    rw [acted_cons_iff, ih]
    -- only the call of an action that is done gives a result
    cases d with
    | called n context verdict =>
      cases verdict <;> simp [resultsOf, Deed.result?, exists_or, eq_comm]
    | _ => simp [resultsOf, Deed.result?]

/-! ### Payloads that bring results -/

/-- Under `actionsKey` the payload has an object with something in it. -/
def BringsResults (payload : Fields) : Prop :=
  ∃ entry rest, Fields.find? actionsKey payload = some (.object (entry :: rest))

theorem bringsResults_iff : BringsResults payload ↔ heldIn payload ≠ [] := by
  unfold BringsResults heldIn Execution.resultsIn
  cases Fields.find? actionsKey payload with
  | none => simp
  | some v =>
    cases v with
    | object fs => cases fs <;> simp [Json.asObject?]
    | _ => simp [Json.asObject?]

theorem not_bringsResults_of_free (free : Fields.has actionsKey payload = false) :
    ¬ BringsResults payload := by
  rintro ⟨entry, rest, hfind⟩
  rw [Fields.find?_eq_none_of_has free] at hfind
  cases hfind

/-- The keys of `row.actions` are the texts of the nodes that have `Acted`. -/
def Execution.AccountsFor (row : Execution) (ds : List Deed) : Prop :=
  ∀ key, key ∈ Fields.keys (row.actions.getD []) ↔ ∃ node, Acted ds node ∧ node.text = key

/-- The results on a row are those `collected` from its run, or the payload has brought some and
then they are these, and no node has acted. -/
structure Origins (payload : Fields) (ds : List Deed) (row : Execution) : Prop where
  own : ¬ BringsResults payload → row.actions.getD [] = collected (resultsOf ds)
  brought : BringsResults payload →
    row.actions.getD [] = heldIn payload ∧ ∀ node, ¬ Acted ds node

/-- A row `AccountsFor` its run if and only if the payload has brought no results. -/
theorem Origins.accountsFor_iff (h : Origins payload ds row) :
    row.AccountsFor ds ↔ ¬ BringsResults payload := by
  constructor
  · intro haccounts hbrings
    -- the first of the results that have been brought is nobody's
    obtain ⟨hheld, hnone⟩ := h.brought hbrings
    obtain ⟨⟨key, v⟩, rest, hentries⟩ :=
      List.exists_cons_of_ne_nil (bringsResults_iff.mp hbrings)
    have hkey : key ∈ Fields.keys (row.actions.getD []) := by
      rw [hheld, hentries]
      exact List.mem_cons_self
    obtain ⟨node, hacted, -⟩ := (haccounts key).mp hkey
    exact hnone node hacted
  · intro hfree key
    rw [h.own hfree, Execution.mem_keys_collected]
    simp only [acted_iff_exists_result, exists_and_right]

namespace Engine

variable {engine : Engine} {r : Run} {ending : Ending}

/-! ### Nothing is refused -/

/-- No deed of the run is `wrote` and refused. -/
def Unrefused (engine : Engine) (workflow : Workflow) (triggerType : String) (payload : Fields)
    (w : World) : Prop :=
  ∀ row, .wrote row false ∉ engine.deeds workflow triggerType payload w

/-- A refused write is what ends a traversal, with a `store` error. -/
theorem Steps.refused_ends (h : Steps engine r ds ending) (refused : .wrote row false ∈ ds) :
    ∃ e r', ending = .error (.store e) r' := by
  induction h with
  | done => simp at refused
  | halt => simp at refused
  | look same rest ih => exact ih refused
  | report move rest ih => exact ih (by simpa [Run.reporting] using refused)
  | fail => simp at refused
  | refuse known ran hrefused => exact ⟨_, _, rfl⟩
  | complete known ran kept rest ih => exact ih (by simpa [Run.reporting] using refused)

/-- If no write is refused, the nodes that have `Acted` are those of the `actionCompleted` reports.
-/
theorem Steps.acted_iff_completed (h : Steps engine r ds ending)
    (unrefused : ∀ row, .wrote row false ∉ ds) :
    Acted ds node ↔ ∃ t ms, .actionCompleted node t ms ∈ happeningsOf ds := by
  induction h with
  | done => simp [happeningsOf]
  | halt => simp [happeningsOf]
  | look same rest ih => exact ih unrefused
  | @report r h ds ending move rest ih =>
    -- a move is reported by the walk, not by an action
    have hmoves : ∀ t ms, Happening.actionCompleted node t ms ≠ h := by
      rintro t ms rfl
      cases move
    rw [acted_cons_iff, ih fun row hmem => unrefused row (.tail _ hmem)]
    simp [happeningsOf, Run.reporting, Deed.happening?, hmoves]
  | @fail r n t a config verdict s e known ran blame =>
    have hnot : ∀ v, verdict ≠ .done v := by
      rintro v rfl
      cases blame
    simp [acted_cons_iff, happeningsOf, Deed.happening?, hnot]
  | refuse known ran refused => exact absurd (.tail _ (.head _)) (unrefused _)
  | @complete r n t a config v s s' ms ds ending known ran kept rest ih =>
    rw [acted_cons_iff, acted_cons_iff, acted_cons_iff,
      ih fun row hmem => unrefused row (.tail _ (.tail _ (.tail _ hmem)))]
    simp [happeningsOf, Run.reporting, Deed.happening?, exists_or, eq_comm]

/-! ### Whole runs -/

section Begun

variable {workflow : Workflow} {triggerType : String} {w w' w₀ : World}

theorem wrote_mem_deeds_iff (h : Run.begin workflow triggerType payload w = .ok r w₀)
    {accepted : Bool} :
    .wrote row accepted ∈ engine.deeds workflow triggerType payload w ↔
      .wrote row accepted ∈ engine.deedsTraversing workflow.id r ∨
        row = closing (engine.traverse workflow.id r) ∧
          accepted = (leftBy (engine.traverse workflow.id r)).world.storage.accepts row := by
  rw [deeds_of_begun h]
  simp only [List.mem_append, List.mem_cons, Run.reporting, Deed.wrote.injEq, reduceCtorEq,
    List.not_mem_nil, false_or, or_false]
  refine or_congr_right (and_congr_right fun hrow => ?_)
  rw [hrow]

theorem resultsOf_deeds (h : Run.begin workflow triggerType payload w = .ok r w₀) :
    resultsOf (engine.deeds workflow triggerType payload w) =
      resultsOf (engine.deedsTraversing workflow.id r) := by
  rw [deeds_of_begun h, resultsOf_append, resultsOf_append]
  exact List.append_nil _

theorem acted_deeds_iff (h : Run.begin workflow triggerType payload w = .ok r w₀)
    (unrefused : engine.Unrefused workflow triggerType payload w) :
    Acted (engine.deeds workflow triggerType payload w) node ↔
      ∃ t ms, .actionCompleted node t ms ∈ happeningsOf (engine.deedsTraversing workflow.id r) := by
  have htraversing : ∀ row, .wrote row false ∉ engine.deedsTraversing workflow.id r :=
    fun row hmem => unrefused row ((wrote_mem_deeds_iff h).mpr (.inl hmem))
  rw [acted_iff_exists_result, resultsOf_deeds h, ← acted_iff_exists_result]
  exact (steps_traverse engine workflow.id r).acted_iff_completed htraversing

/-- The row that closes a run has its results from there, as `Origins` says. -/
theorem origins_closing (h : Run.begin workflow triggerType payload w = .ok r w₀) :
    Origins payload (engine.deeds workflow triggerType payload w)
      (closing (engine.traverse workflow.id r)) := by
  have hbegun := knows_of_begin h
  have hresults : resultsOf (engine.deeds workflow triggerType payload w) =
      resultsOf (engine.deedsTraversing workflow.id r) := resultsOf_deeds h
  cases free : Fields.has actionsKey payload with
  | false =>
    obtain ⟨-, hends⟩ := (steps_traverse engine workflow.id r).contexts free hbegun
    have hcontext : (closing (engine.traverse workflow.id r)).context =
        contextOf payload (resultsOf (engine.deeds workflow triggerType payload w)) := by
      rw [closing_context, hends.context, List.nil_append, hresults]
    refine ⟨fun _ => ?_, fun hbrings => absurd hbrings (not_bringsResults_of_free free)⟩
    rw [Execution.actions, hcontext]
    exact Execution.heldIn_contextOf free _
  | true =>
    -- the payload is refused before anything is done, and it is the context
    have hreserved : Fields.has actionsKey r.execution.triggerData = true := by
      rw [hbegun.triggerData]
      exact free
    have htraverse : engine.traverse workflow.id r =
        .error (.reservedContextKey actionsKey) r := (Traverses.reserved hreserved).traverse_eq
    have hcontext : (closing (engine.traverse workflow.id r)).context = payload := by
      rw [htraverse]
      exact hbegun.context
    have hnone : resultsOf (engine.deeds workflow triggerType payload w) = [] := by
      rw [hresults, deedsTraversing, if_pos hreserved]
      rfl
    have hheld : (closing (engine.traverse workflow.id r)).actions.getD [] = heldIn payload := by
      rw [Execution.actions, hcontext]
      rfl
    refine ⟨fun hfree => ?_, fun _ => ⟨hheld, fun node hacted => ?_⟩⟩
    · rw [hheld, hnone]
      exact not_not.mp (mt bringsResults_iff.mpr hfree)
    · obtain ⟨v, hmem⟩ := acted_iff_exists_result.mp hacted
      rw [hnone] at hmem
      cases hmem

/-- If no write is refused, the row under the run's identifier has the context of the `closing` row.
-/
theorem getExecution_of_unrefused (h : Run.begin workflow triggerType payload w = .ok r w₀)
    (unrefused : engine.Unrefused workflow triggerType payload w) :
    ∃ row, (conclude w.now (engine.traverse workflow.id r)).storage.tables.getExecution
        r.execution.id = some row ∧
      row.context = (closing (engine.traverse workflow.id r)).context := by
  have htaken : (leftBy (engine.traverse workflow.id r)).world.storage.accepts
      (closing (engine.traverse workflow.id r)) = true := by
    rw [← Bool.not_eq_false]
    intro hrefused
    exact unrefused _ ((wrote_mem_deeds_iff h).mpr (.inr ⟨rfl, hrefused.symm⟩))
  obtain ⟨s', haccepted⟩ := Storage.accepts_eq_true_iff.mp htaken
  obtain ⟨stored, hstored⟩ := Storage.getExecution_of_updateExecution haccepted
  rw [closing_id, (steps_traverse engine workflow.id r).execution_eq] at hstored
  refine ⟨Tables.written stored (closing (engine.traverse workflow.id r)), ?_, rfl⟩
  rw [storage_conclude, haccepted]
  exact hstored

/-- If no write is refused, the row that is found has its results as `Origins` says, and `Acted` are
the nodes of the `actionCompleted` events. -/
theorem origins_of_execute {id : ExecutionId}
    (h : engine.execute workflow triggerType payload w = .ok id w')
    (unrefused : engine.Unrefused workflow triggerType payload w) :
    ∃ row news, w'.storage.tables.getExecution id = some row ∧ w'.events = w.events ++ news ∧
      Origins payload (engine.deeds workflow triggerType payload w) row ∧
      ∀ node, Acted (engine.deeds workflow triggerType payload w) node ↔
        ∃ t ms, .actionCompleted node t ms ∈ news.map Event.happening := by
  have hexecute := execute_apply engine workflow triggerType payload w
  cases hbegin : Run.begin workflow triggerType payload w with
  | error e w₀ =>
    rw [h, hbegin] at hexecute
    cases hexecute
  | ok r w₀ =>
    obtain ⟨news, hevents, hnews⟩ :=
      events_execute hbegin (steps_traverse engine workflow.id r).reports.1
    rw [h, leftBy_ok] at hevents
    rw [h, hbegin] at hexecute
    obtain ⟨rfl, rfl⟩ := EStateM.Result.ok.inj hexecute
    obtain ⟨row, hrow, hcontext⟩ := getExecution_of_unrefused hbegin unrefused
    have horigins : Origins payload (engine.deeds workflow triggerType payload w)
        (closing (engine.traverse workflow.id r)) := origins_closing hbegin
    refine ⟨row, news, hrow, hevents, ⟨?_, ?_⟩, fun node => ?_⟩
    · rw [Execution.actions, hcontext]
      exact horigins.own
    · rw [Execution.actions, hcontext]
      exact horigins.brought
    · rw [acted_deeds_iff hbegin unrefused, hnews]
      -- neither the start nor the outcome is the report of an action
      cases engine.traverse workflow.id r <;> simp [outcome]

/-- A store without outages refuses no write if actions are `Considerate`, and the run begins. -/
theorem unrefused_of_considerate (engine : Engine) (workflow : Workflow) (triggerType : String)
    (payload : Fields) {w : World} (calm : w.storage.outages = [])
    (new : ∀ row ∈ w.storage.tables.executions, row.id ≠ (w.storage.ids.next .execution).1)
    (considerate : engine.Considerate (w.storage.ids.next .execution).1) :
    engine.Unrefused workflow triggerType payload w ∧
      ∃ id w', engine.execute workflow triggerType payload w = .ok id w' ∧
        w'.storage.outages = [] := by
  obtain ⟨r, hbegin, hid, -, -, hsound⟩ := begin_of_calm workflow triggerType payload calm
  rw [← hid] at new considerate
  obtain ⟨hends, hstore⟩ :=
    (traverses_traverse engine workflow.id r).soundlyEnded considerate (hsound new)
  -- the row is still in progress, so that the outcome can be written
  have hruns := hends.stored
  rw [← hends.id_eq, ← closing_id] at hruns
  obtain ⟨stored, t, hwritten, -⟩ := Storage.updateExecution_of_runs _ hruns
  refine ⟨fun row hrefused => ?_, r.execution.id, _, by rw [execute_apply, hbegin], ?_⟩
  · rcases (wrote_mem_deeds_iff hbegin).mp hrefused with hmem | ⟨rfl, hrefused⟩
    · obtain ⟨e, r', hending⟩ := (steps_traverse engine workflow.id r).refused_ends hmem
      exact hstore e r' hending
    · have htaken := Storage.accepts_eq_true_iff.mpr ⟨_, hwritten⟩
      rw [htaken] at hrefused
      cases hrefused
  · rw [storage_conclude, hwritten]
    exact hends.stored.calm

end Begun

end Engine

end TriggerFlow
