import Mathlib.Data.List.Nodup
import TriggerFlow.Dispatch
import TriggerFlow.Proofs.Context.Sight
import TriggerFlow.Proofs.Engine.Row
import TriggerFlow.Proofs.Keys
import TriggerFlow.Proofs.Store.Finality
/-!
# Reaping while a run goes on

The reaper lists rows, and writes those that are overdue later on.  In the meantime a run may come
to checkpoints (`Run.Meanwhile`), of which the copy that the reaper holds knows nothing; and
`reapAmong` writes back the context of its copy along with the outcome.  So what the run has written
down outlasts the reaper if and only if the row is not closed by it, or the copy had it already
(`reaping_keeps_results_iff`).
-/

namespace TriggerFlow

/-! ### Writes and rows they are not meant for -/

namespace Storage

variable {s s' : Storage} {row : Execution} {id : ExecutionId}

theorem getExecution_of_updateExecution_of_ne (h : updateExecution row s = .ok () s')
    (hne : row.id ≠ id) : s'.tables.getExecution id = s.tables.getExecution id := by
  obtain ⟨stored, hfound, -, htables⟩ := updateExecution_eq_ok h
  have hid : stored.id = row.id := Tables.id_of_getExecution hfound
  have hwritten : (Tables.written stored row).id = row.id := hid
  rw [htables]
  exact Tables.find?_replaceFirst_of_ne hne hwritten _

end Storage

/-! ### A run in the meantime -/

namespace Run

variable {r r' : Run} {results : List (NodeId × Json)} {node : NodeId} {v : Json}

/-- The row of a run is running and equal to its `execution`. -/
structure InStep (r : Run) : Prop where
  stored : r.world.storage.tables.getExecution r.execution.id = some r.execution
  running : r.execution.status = .running

/-- The run `r` has come to further checkpoints that the store took, with these results in order,
while whatever else happened (`elsewhere`) left its row alone. -/
inductive Meanwhile (r : Run) : List (NodeId × Json) → Run → Prop
  | nothing : Meanwhile r [] r
  | checkpoint {results node v r₁ r₂} (before : Meanwhile r results r₁)
      (accepted : Run.checkpoint node v r₁ = .ok () r₂) :
      Meanwhile r (results ++ [(node, v)]) r₂
  | elsewhere {results r₁ w} (before : Meanwhile r results r₁)
      (spared : w.storage.tables.getExecution r.execution.id =
        r₁.world.storage.tables.getExecution r.execution.id) :
      Meanwhile r results { r₁ with world := w }

/-- An accepted checkpoint does `recordAction` in the execution and in the row. -/
theorem InStep.checkpoint (h : r.InStep) (accepted : Run.checkpoint node v r = .ok () r') :
    r'.InStep ∧ r'.execution = r.execution.recordAction node v := by
  rw [Engine.checkpoint_apply, access] at accepted
  split at accepted
  · next s hwrite =>
    obtain ⟨-, rfl⟩ := EStateM.Result.ok.inj accepted
    obtain ⟨-, hstored⟩ := Storage.updateExecution_over hwrite h.stored
    -- beside the context, the row is as it was
    exact ⟨⟨hstored, h.running⟩, rfl⟩
  · simp at accepted

/-- In the meantime the run stays `InStep`, and its execution changes in `context` only; of each
node it has the `latest?` result, or else what it had before. -/
theorem Meanwhile.inStep (h : r.InStep) (meanwhile : r.Meanwhile results r') :
    r'.InStep ∧ r'.execution = { r.execution with context := r'.execution.context } ∧
      ∀ node, r'.execution.actionResult node =
        (Execution.latest? results node).or (r.execution.actionResult node) := by
  induction meanwhile with
  | nothing => exact ⟨h, rfl, fun _ => rfl⟩
  | @checkpoint results node v r₁ r₂ before accepted ih =>
    obtain ⟨hstep, hsame, hresults⟩ := ih
    obtain ⟨hstep', hexecution⟩ := hstep.checkpoint accepted
    refine ⟨hstep', ?_, fun id => ?_⟩
    · rw [hexecution, Execution.recordAction]
      rw [hsame]
    · rw [hexecution, Execution.actionResult_recordAction, Execution.latest?_concat]
      by_cases hid : id = node
      · rw [hid, Function.update_self, Function.update_self, Option.some_or]
      · rw [Function.update_of_ne hid, Function.update_of_ne hid, hresults]
  | @elsewhere results r₁ w before spared ih =>
    obtain ⟨⟨hstored, hrunning⟩, hsame, hresults⟩ := ih
    have hid : r₁.execution.id = r.execution.id := by rw [hsame]
    refine ⟨⟨?_, hrunning⟩, hsame, hresults⟩
    rw [hid] at hstored ⊢
    rw [spared, hstored]

end Run

/-! ### The reaper -/

section Reaper

variable {cutoff : Timestamp} {e : Execution} {es : List Execution} {ids : List ExecutionId}
  {s s' : Storage} {id : ExecutionId}

/-- One step of the reaper: a copy that is not stale is passed over, a stale one is written and
counted, unless the write is refused with `StoreError.conflict`. -/
theorem reapAmong_cons_eq_ok (h : reapAmong cutoff (e :: es) s = .ok ids s') :
    (e.isStale cutoff = false ∧ reapAmong cutoff es s = .ok ids s') ∨
    e.isStale cutoff = true ∧
      ((∃ s₁ ids', Storage.updateExecution (e.fail abandoned s.clock) s = .ok () s₁ ∧
        reapAmong cutoff es s₁ = .ok ids' s' ∧ ids = e.id :: ids') ∨
      ∃ s₁ reason, Storage.updateExecution (e.fail abandoned s.clock) s
          = .error (.conflict reason) s₁ ∧ reapAmong cutoff es s₁ = .ok ids s') := by
  simp only [reapAmong] at h
  cases hstale : e.isStale cutoff with
  | false => exact .inl ⟨rfl, by rwa [hstale] at h⟩
  | true =>
    rw [hstale, if_pos rfl] at h
    refine .inr ⟨rfl, ?_⟩
    cases hwrite : Storage.updateExecution (e.fail abandoned s.clock) s with
    | ok u s₁ =>
      rw [hwrite] at h
      obtain ⟨ids', s₂, hrest, hids⟩ := bind_eq_ok_iff.mp h
      obtain ⟨rfl, rfl⟩ := EStateM.Result.ok.inj hids
      exact .inl ⟨s₁, ids', rfl, hrest, rfl⟩
    | error err s₁ =>
      rw [hwrite] at h
      -- only a conflict is passed over
      cases err with
      | conflict reason => exact .inr ⟨s₁, reason, rfl, h⟩
      | notFound noun id => simp at h
      | backend reason => simp at h

/-- A row that none of the copies `es` is of is left as it is. -/
theorem getExecution_of_reapAmong (h : reapAmong cutoff es s = .ok ids s')
    (hne : ∀ e ∈ es, e.id ≠ id) :
    s'.tables.getExecution id = s.tables.getExecution id ∧ id ∉ ids := by
  induction es generalizing s ids with
  | nil =>
    obtain ⟨rfl, rfl⟩ := EStateM.Result.ok.inj h
    exact ⟨rfl, List.not_mem_nil⟩
  | cons e es ih =>
    obtain ⟨hhead, htail⟩ := List.forall_mem_cons.mp hne
    rcases reapAmong_cons_eq_ok h with ⟨-, hrest⟩ |
      ⟨-, ⟨s₁, ids', hwrite, hrest, rfl⟩ | ⟨s₁, reason, hwrite, hrest⟩⟩
    · exact ih hrest htail
    · obtain ⟨hsame, hnot⟩ := ih hrest htail
      refine ⟨?_, fun hmem => ?_⟩
      · rw [hsame, Storage.getExecution_of_updateExecution_of_ne hwrite hhead]
      · exact (List.mem_cons.mp hmem).elim (fun heq => hhead heq.symm) hnot
    · obtain ⟨hsame, hnot⟩ := ih hrest htail
      refine ⟨?_, hnot⟩
      rw [hsame, Storage.updateExecution_eq_error hwrite]

/-- What the reaper does to other rows is something that happens `elsewhere`. -/
theorem Run.Meanwhile.reaped {r r' : Run} {results : List (NodeId × Json)}
    (meanwhile : r.Meanwhile results r') (h : reapAmong cutoff es r'.world.storage = .ok ids s')
    (hne : ∀ e ∈ es, e.id ≠ r.execution.id) : r.Meanwhile results (r'.withStorage s') :=
  meanwhile.elsewhere (getExecution_of_reapAmong h hne).1

/-- The reaper writes its copy `e`, failed, over the stored row if it answers with its identifier,
and leaves the row otherwise. -/
theorem getExecution_of_reapAmong_cons {stored : Execution}
    (h : reapAmong cutoff (e :: es) s = .ok ids s') (hne : ∀ e' ∈ es, e'.id ≠ e.id)
    (found : s.tables.getExecution e.id = some stored) :
    s'.tables.getExecution e.id = some
      (if e.id ∈ ids then Tables.written stored (e.fail abandoned s.clock) else stored) := by
  rcases reapAmong_cons_eq_ok h with ⟨-, hrest⟩ |
    ⟨-, ⟨s₁, ids', hwrite, hrest, rfl⟩ | ⟨s₁, reason, hwrite, hrest⟩⟩
  · obtain ⟨hsame, hnot⟩ := getExecution_of_reapAmong hrest hne
    rw [if_neg hnot, hsame, found]
  · obtain ⟨hsame, -⟩ := getExecution_of_reapAmong hrest hne
    obtain ⟨-, hwritten⟩ := Storage.updateExecution_over hwrite found
    rw [if_pos (List.mem_cons_self ..), hsame]
    exact hwritten
  · obtain ⟨hsame, hnot⟩ := getExecution_of_reapAmong hrest hne
    rw [if_neg hnot, hsame, Storage.updateExecution_eq_error hwrite, found]

/-- Where the store works and the row is running, the reaper answers with its identifier exactly if
`isStale` holds of the copy. -/
theorem mem_of_reapAmong_cons_iff {stored : Execution}
    (h : reapAmong cutoff (e :: es) s = .ok ids s') (hne : ∀ e' ∈ es, e'.id ≠ e.id)
    (calm : s.outages = []) (found : s.tables.getExecution e.id = some stored)
    (running : stored.status = .running) : e.id ∈ ids ↔ e.isStale cutoff = true := by
  rcases reapAmong_cons_eq_ok h with ⟨hfresh, hrest⟩ |
    ⟨hstale, ⟨s₁, ids', -, -, rfl⟩ | ⟨s₁, reason, hwrite, -⟩⟩
  · simp [hfresh, (getExecution_of_reapAmong hrest hne).2]
  · simp [hstale]
  · obtain ⟨stored', t, hwritten, -⟩ := Storage.updateExecution_of_runs
      (e.fail abandoned s.clock) ⟨calm, stored, found, running⟩
    rw [hwritten] at hwrite
    simp at hwrite

end Reaper

/-! ### The run and the reaper -/

theorem Tables.getExecution_of_mem {t : Tables} {e : Execution} (h : e ∈ t.executions)
    (distinct : (t.executions.map Execution.id).Nodup) : t.getExecution e.id = some e :=
  (find?_eq_some_iff_of_nodup distinct).mpr ⟨h, rfl⟩

/-- After a listing, `getExecution` finds each listed row under its identifier, and those listed
after it have others. -/
theorem Storage.listExecutions_eq_ok {workflow : WorkflowId} {s s' : Storage}
    {earlier later : List Execution} {e : Execution}
    (h : listExecutions workflow s = .ok (earlier ++ e :: later) s')
    (distinct : (s.tables.executions.map Execution.id).Nodup) :
    s'.tables.getExecution e.id = some e ∧ ∀ e' ∈ later, e'.id ≠ e.id := by
  have hrows : earlier ++ e :: later = s.tables.executions.filter fun e => e.workflow == workflow :=
    look_eq_ok (f := fun t => t.listExecutions workflow) h
  have htables := (looks_look .listExecutions fun t => t.listExecutions workflow).reads.of_ok h
  have hmem : e ∈ s.tables.executions := by
    have hlisted : e ∈ earlier ++ e :: later := by simp
    rw [hrows] at hlisted
    exact List.mem_of_mem_filter hlisted
  have hnodup : ((earlier ++ e :: later).map Execution.id).Nodup := by
    rw [hrows]
    exact distinct.sublist (List.filter_sublist.map _)
  rw [List.map_append, List.map_cons] at hnodup
  obtain ⟨hhead, -⟩ := List.nodup_cons.mp (List.Nodup.of_append_right hnodup)
  refine ⟨?_, fun e' he' heq => hhead (List.mem_map.mpr ⟨e', he', heq⟩)⟩
  rw [htables]
  exact Tables.getExecution_of_mem hmem distinct

/-- The reaper has listed the row of a run, and comes to it when the run has gone on for a while
(`Meanwhile`).  Until then the row has the latest result of every node; the reaper leaves it so, or
writes its own copy over it, failed.  Hence every result survives exactly if the row is not reaped
or the copy had the same results already. -/
theorem reaping_keeps_results_iff {workflow : WorkflowId} {s s' : Storage} {r r' : Run}
    {earlier later : List Execution} {results : List (NodeId × Json)} {cutoff : Timestamp}
    {ids : List ExecutionId}
    (listed : Storage.listExecutions workflow s
      = .ok (earlier ++ r.execution :: later) r.world.storage)
    (distinct : (s.tables.executions.map Execution.id).Nodup)
    (running : r.execution.status = .running) (meanwhile : r.Meanwhile results r')
    (reaped : reapAmong cutoff (r.execution :: later) r'.world.storage = .ok ids s') :
    ∃ before after, r'.world.storage.tables.getExecution r.execution.id = some before ∧
      s'.tables.getExecution r.execution.id = some after ∧
      (∀ node, before.actionResult node =
        (Execution.latest? results node).or (r.execution.actionResult node)) ∧
      (r.execution.id ∉ ids → after = before) ∧
      (r.execution.id ∈ ids → after = r.execution.fail abandoned r'.world.storage.clock) ∧
      (r'.world.storage.outages = [] →
        (r.execution.id ∈ ids ↔ r.execution.isStale cutoff = true)) ∧
      ((∀ node v, before.actionResult node = some v → after.actionResult node = some v) ↔
        r.execution.id ∉ ids ∨ ∀ node v, Execution.latest? results node = some v →
          r.execution.actionResult node = some v) := by
  obtain ⟨hstored, hothers⟩ := Storage.listExecutions_eq_ok listed distinct
  obtain ⟨⟨hbefore, hrunning⟩, hsame, hresults⟩ := meanwhile.inStep ⟨hstored, running⟩
  have hid : r'.execution.id = r.execution.id := by rw [hsame]
  rw [hid] at hbefore
  have hafter := getExecution_of_reapAmong_cons reaped hothers hbefore
  have hclosed : Tables.written r'.execution (r.execution.fail abandoned r'.world.storage.clock) =
      r.execution.fail abandoned r'.world.storage.clock := by
    rw [hsame]
    rfl
  rw [hclosed] at hafter
  refine ⟨r'.execution, _, hbefore, hafter, hresults, fun hnot => if_neg hnot,
    fun hmem => if_pos hmem,
    fun calm => mem_of_reapAmong_cons_iff reaped hothers calm hbefore hrunning, ?_⟩
  by_cases hmem : r.execution.id ∈ ids
  · rw [if_pos hmem, or_iff_right (not_not_intro hmem)]
    -- what has been closed has the results of the copy
    constructor
    · intro hkept node v hlatest
      exact hkept node v (by rw [hresults, hlatest, Option.some_or])
    · intro hknown node v hresult
      rw [hresults, Option.or_eq_some_iff] at hresult
      exact hresult.elim (hknown node v) And.right
  · rw [if_neg hmem]
    exact iff_of_true (fun _ _ h => h) (.inl hmem)

/-! ### A run that goes on for too long -/

/-- A run that has begun, in a store that holds nothing but its row. -/
def overdueRun : Run :=
  let row := Execution.start Uuid.nil Uuid.nil "event.created" [] default
  ⟨.ofStorage { Storage.fresh (.ofNames fun _ n => Uuid.ofHalves 0 n) default with
    tables := { Tables.empty with executions := [row] } }, row⟩

/-- The run `overdueRun` after its first checkpoint. -/
def notedRun : Run :=
  leftBy (Run.checkpoint (Uuid.ofHalves 0 1) (.string "noted") overdueRun)

def reapedStorage : Storage :=
  leftBy (reapAmong default [overdueRun.execution] notedRun.world.storage)

/-- The reaper writes the copy without the result over the row of `notedRun`, and closes it. -/
theorem overdueRun_closed :
    reapAmong default [overdueRun.execution] notedRun.world.storage
        = .ok [overdueRun.execution.id] reapedStorage ∧
      reapedStorage.tables.getExecution overdueRun.execution.id
        = some (overdueRun.execution.fail abandoned default) := by
  have meanwhile : overdueRun.Meanwhile [(Uuid.ofHalves 0 1, .string "noted")] notedRun :=
    .checkpoint .nothing rfl
  have hreaped : reapAmong default [overdueRun.execution] notedRun.world.storage
      = .ok [overdueRun.execution.id] reapedStorage := rfl
  have listed : Storage.listExecutions Uuid.nil overdueRun.world.storage
      = .ok ([] ++ overdueRun.execution :: []) overdueRun.world.storage := rfl
  obtain ⟨before, after, -, hafter, -, -, hclosed, -⟩ :=
    reaping_keeps_results_iff listed (by decide) rfl meanwhile hreaped
  refine ⟨hreaped, ?_⟩
  rw [hafter, hclosed (List.mem_cons_self ..)]
  rfl

/-- The result is in the row of `notedRun`, and no longer there when the reaper has closed it. -/
theorem reaping_discards_result :
    Storage.listExecutions Uuid.nil overdueRun.world.storage
        = .ok [overdueRun.execution] overdueRun.world.storage ∧
      Run.checkpoint (Uuid.ofHalves 0 1) (.string "noted") overdueRun = .ok () notedRun ∧
      reapAmong default [overdueRun.execution] notedRun.world.storage
        = .ok [overdueRun.execution.id] reapedStorage ∧
      ((notedRun.world.storage.tables.getExecution overdueRun.execution.id).bind fun e =>
        e.actionResult (Uuid.ofHalves 0 1)) = some (.string "noted") ∧
      ((reapedStorage.tables.getExecution overdueRun.execution.id).bind fun e =>
        e.actionResult (Uuid.ofHalves 0 1)) = none := by
  have hnoted : notedRun.world.storage.tables.getExecution overdueRun.execution.id =
      some (overdueRun.execution.recordAction (Uuid.ofHalves 0 1) (.string "noted")) := rfl
  refine ⟨rfl, rfl, rfl, ?_, rfl⟩
  rw [hnoted, Option.bind_some, Execution.actionResult_recordAction, Function.update_self]

end TriggerFlow
