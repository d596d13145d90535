import TriggerFlow.Proofs.Engine.Reaping
/-!
# What the reaper closes

The reaper lists the runs of a workflow, and then writes to their rows one by one.  In a store that
works, and in which no two executions share an identifier, each of these writes changes its own row
and leaves the copies of the others as good as they were (`reapAmong_of_calm`).  So the `Overdue`
rows are closed and no others are touched, and whoever comes again with the same cutoff finds
nothing to do (`reaping_is_exact`).
-/

namespace TriggerFlow

namespace Storage

variable {s : Storage} {e row : Execution}

/-- The store with `f` applied to every row of an execution. -/
def mapExecutions (s : Storage) (f : Execution → Execution) : Storage :=
  { s with tables := { s.tables with executions := s.tables.executions.map f } }

theorem mapExecutions_mapExecutions (s : Storage) (f g : Execution → Execution) :
    (s.mapExecutions f).mapExecutions g = s.mapExecutions fun e => g (f e) := by
  unfold mapExecutions
  dsimp only
  rw [List.map_map]
  rfl

theorem mapExecutions_congr {f g : Execution → Execution}
    (h : ∀ e ∈ s.tables.executions, f e = g e) : s.mapExecutions f = s.mapExecutions g := by
  rw [mapExecutions, mapExecutions, List.map_congr_left h]

theorem ids_mapExecutions {f : Execution → Execution} (h : ∀ e, (f e).id = e.id) :
    (s.mapExecutions f).tables.executions.map Execution.id =
      s.tables.executions.map Execution.id := by
  rw [mapExecutions, List.map_map]
  exact List.map_congr_left fun e _ => h e

theorem mapExecutions_of_same {f : Execution → Execution}
    (h : ∀ e ∈ s.tables.executions, f e = e) : s.mapExecutions f = s := by
  rw [mapExecutions_congr h, mapExecutions, List.map_id']

/-- Where the store works and identifiers are distinct, `updateExecution` writes over the running
row of its identifier and over no other. -/
theorem updateExecution_of_mem (calm : s.outages = [])
    (distinct : (s.tables.executions.map Execution.id).Nodup) (he : e ∈ s.tables.executions)
    (running : e.status = .running) (hid : row.id = e.id) :
    updateExecution row s =
      .ok () (s.mapExecutions fun x => if x.id = e.id then Tables.written e row else x) := by
  have hfound : s.tables.getExecution row.id = some e := by
    rw [hid]
    exact Tables.getExecution_of_mem he distinct
  rw [updateExecution, bind_of_ok (attempt_of_calm calm _), change,
    Tables.updateExecution_of_running hfound running, Tables.replaceFirst_eq_map distinct, hid,
    mapExecutions]

end Storage

namespace Execution

variable {workflow : WorkflowId} {cutoff : Timestamp} {e x : Execution}

/-- The execution is of `workflow`, is running, and began no later than `cutoff`. -/
structure Overdue (workflow : WorkflowId) (cutoff : Timestamp) (e : Execution) : Prop where
  member : e.workflow = workflow
  running : e.status = .running
  began : e.startedAt.le cutoff = true

theorem isStale_iff :
    e.isStale cutoff = true ↔ e.status = .running ∧ e.startedAt.le cutoff = true := by
  rw [isStale, Bool.and_eq_true, beq_iff_eq]

theorem overdue_iff :
    e.Overdue workflow cutoff ↔ e.workflow = workflow ∧ e.isStale cutoff = true := by
  rw [isStale_iff]
  exact ⟨fun ⟨member, running, began⟩ => ⟨member, running, began⟩,
    fun ⟨member, running, began⟩ => ⟨member, running, began⟩⟩

instance (workflow : WorkflowId) (cutoff : Timestamp) (e : Execution) :
    Decidable (e.Overdue workflow cutoff) := decidable_of_iff _ overdue_iff.symm

/-- Fails the row if it is stale and its identifier is among those of `es`, and leaves it alone
otherwise. -/
def givenUpAmong (cutoff now : Timestamp) (es : List Execution) (e : Execution) : Execution :=
  if e.isStale cutoff = true ∧ e.id ∈ es.map Execution.id then e.fail abandoned now else e

theorem givenUpAmong_cons_of_fresh (now : Timestamp) (es : List Execution)
    (fresh : e.isStale cutoff = false) (distinct : x.id = e.id → x = e) :
    givenUpAmong cutoff now (e :: es) x = givenUpAmong cutoff now es x := by
  unfold givenUpAmong
  by_cases hid : x.id = e.id
  · obtain rfl := distinct hid
    simp [fresh]
  · simp [hid]

/-- Giving up `e :: es` is giving up `e` and then those of `es`. -/
theorem givenUpAmong_cons_of_stale (now : Timestamp) (es : List Execution)
    (stale : e.isStale cutoff = true) (distinct : x.id = e.id → x = e) :
    givenUpAmong cutoff now (e :: es) x =
      givenUpAmong cutoff now es (if x.id = e.id then e.fail abandoned now else x) := by
  by_cases hid : x.id = e.id
  · obtain rfl := distinct hid
    -- it is not overdue any more when the others are
    have hclosed : (x.fail abandoned now).isStale cutoff = false := rfl
    simp [givenUpAmong, stale, hclosed]
  · simp [givenUpAmong, hid]

end Execution

open Execution

/-! ### One row after the other -/

section

variable {cutoff : Timestamp} {e : Execution} {es : List Execution} {s s₁ s' : Storage}
  {ids : List ExecutionId}

theorem reapAmong_cons_of_fresh (fresh : e.isStale cutoff = false) :
    reapAmong cutoff (e :: es) s = reapAmong cutoff es s := by
  simp only [reapAmong, fresh]
  rfl

theorem reapAmong_cons_of_accepted (stale : e.isStale cutoff = true)
    (accepted : Storage.updateExecution (e.fail abandoned s.clock) s = .ok () s₁)
    (rest : reapAmong cutoff es s₁ = .ok ids s') :
    reapAmong cutoff (e :: es) s = .ok (e.id :: ids) s' := by
  simp only [reapAmong, stale, accepted, if_true]
  rw [bind_of_ok rest]
  rfl

/-- In a store that works with distinct identifiers, `reapAmong cutoff es` applies `givenUpAmong` to
all rows and answers with the identifiers of the stale ones of `es`, in order. -/
theorem reapAmong_of_calm (calm : s.outages = [])
    (distinct : (s.tables.executions.map Execution.id).Nodup)
    (listed : ∀ e ∈ es, e ∈ s.tables.executions) (once : (es.map Execution.id).Nodup) :
    reapAmong cutoff es s = .ok ((es.filter fun e => e.isStale cutoff).map Execution.id)
      (s.mapExecutions (givenUpAmong cutoff s.clock es)) := by
  -- induction on the rows that are left, over the store that the first ones have changed
  induction es generalizing s with
  | nil =>
    rw [Storage.mapExecutions_of_same fun e _ => by simp [givenUpAmong]]
    rfl
  | cons e es ih =>
    obtain ⟨he, hlisted⟩ := List.forall_mem_cons.mp listed
    obtain ⟨hnew, honce⟩ := List.nodup_cons.mp once
    have hsame : ∀ x ∈ s.tables.executions, x.id = e.id → x = e :=
      fun x hx => List.inj_on_of_nodup_map distinct hx he
    cases hstale : e.isStale cutoff with
    | false =>
      rw [reapAmong_cons_of_fresh hstale, ih calm distinct hlisted honce,
        List.filter_cons_of_neg (by simp [hstale])]
      have hrows := Storage.mapExecutions_congr fun x hx =>
        givenUpAmong_cons_of_fresh s.clock es hstale (hsame x hx)
      rw [hrows]
    | true =>
      have hwrite : Storage.updateExecution (e.fail abandoned s.clock) s = .ok ()
          (s.mapExecutions fun x => if x.id = e.id then e.fail abandoned s.clock else x) :=
        Storage.updateExecution_of_mem calm distinct he (isStale_iff.mp hstale).1 rfl
      have hrest := reapAmong_cons_of_accepted hstale hwrite (ih calm ?_ ?_ honce)
      · rw [hrest, List.filter_cons_of_pos (by simp [hstale]), Storage.mapExecutions_mapExecutions]
        have hrows := Storage.mapExecutions_congr fun x hx =>
          givenUpAmong_cons_of_stale s.clock es hstale (hsame x hx)
        rw [hrows]
        rfl
      · -- rows have kept their identifiers
        rwa [Storage.ids_mapExecutions]
        intro x
        split
        · next hid => exact hid.symm
        · rfl
      · -- the rows that are still to come are as they were
        intro x hx
        refine List.mem_map.mpr ⟨x, hlisted x hx, if_neg fun hid => hnew ?_⟩
        exact List.mem_map.mpr ⟨x, hx, hid⟩

end

/-! ### All rows of a workflow -/

/-- The reaper with its cutoff as an argument: closes what the listing of `workflow` shows as stale.
-/
def reapUpTo (workflow : WorkflowId) (cutoff : Timestamp) : Access (List ExecutionId) := do
  let executions ← Storage.listExecutions workflow
  reapAmong cutoff executions

/-- The reaper `reapStale workflow olderThan` reaps up to the instant `olderThan` seconds before
now. -/
theorem reapStale_apply (workflow : WorkflowId) (olderThan : Int) (s : Storage) :
    reapStale workflow olderThan s =
      reapUpTo workflow (s.clock.addSeconds (-olderThan)) s := rfl

section

variable {workflow : WorkflowId} {cutoff : Timestamp} {s : Storage}

theorem reapUpTo_of_calm (calm : s.outages = [])
    (distinct : (s.tables.executions.map Execution.id).Nodup) :
    reapUpTo workflow cutoff s =
      .ok ((s.tables.executions.filter fun e => e.Overdue workflow cutoff).map Execution.id)
        (s.mapExecutions fun e =>
          if e.Overdue workflow cutoff then e.fail abandoned s.clock else e) := by
  have hlisted : Storage.listExecutions workflow s =
      .ok (s.tables.executions.filter fun e => e.workflow == workflow) s :=
    Storage.look_of_calm calm .listExecutions fun t => t.listExecutions workflow
  rw [reapUpTo, bind_of_ok hlisted, reapAmong_of_calm calm distinct
    (fun e he => List.mem_of_mem_filter he) (distinct.sublist (List.filter_sublist.map _))]
  have hfilter : ((s.tables.executions.filter fun e => e.workflow == workflow).filter fun e =>
      e.isStale cutoff) = s.tables.executions.filter fun e => e.Overdue workflow cutoff := by
    rw [List.filter_filter]
    refine List.filter_congr fun e _ => ?_
    rw [Bool.eq_iff_iff, Bool.and_eq_true, decide_eq_true_iff, overdue_iff, beq_iff_eq, and_comm]
  -- being listed is asked of the identifier, which is that of one row
  have hrows : ∀ e ∈ s.tables.executions, givenUpAmong cutoff s.clock
      (s.tables.executions.filter fun e => e.workflow == workflow) e =
      if e.Overdue workflow cutoff then e.fail abandoned s.clock else e := by
    intro e he
    have hmem : e.id ∈ (s.tables.executions.filter fun e => e.workflow == workflow).map
        Execution.id ↔ e.workflow = workflow := by
      constructor
      · intro hid
        obtain ⟨x, hx, hid⟩ := List.mem_map.mp hid
        obtain ⟨hx, hworkflow⟩ := List.mem_filter.mp hx
        rw [← List.inj_on_of_nodup_map distinct hx he hid]
        exact beq_iff_eq.mp hworkflow
      · intro hworkflow
        exact List.mem_map.mpr ⟨e, List.mem_filter.mpr ⟨he, beq_iff_eq.mpr hworkflow⟩, rfl⟩
    refine if_congr ?_ rfl rfl
    rw [hmem, overdue_iff, and_comm]
  rw [hfilter, Storage.mapExecutions_congr hrows]

/-- In a store that works, whose executions have distinct identifiers, the reaper answers with the
identifiers of the `Overdue` rows, in the order of the table, and closes exactly these.  Any later
reaping of the same tables with the same cutoff answers `[]` and changes nothing. -/
theorem reaping_is_exact (calm : s.outages = [])
    (distinct : (s.tables.executions.map Execution.id).Nodup) (workflow : WorkflowId)
    (cutoff : Timestamp) :
    let reaped := s.mapExecutions fun e =>
      if e.Overdue workflow cutoff then
        { e with
          status := .failed, error := some "Execution abandoned", completedAt := some s.clock }
      else e
    reapUpTo workflow cutoff s =
      .ok ((s.tables.executions.filter fun e => e.Overdue workflow cutoff).map Execution.id)
        reaped ∧
    (∀ s' : Storage, s'.outages = [] → s'.tables = reaped.tables →
      reapUpTo workflow cutoff s' = .ok [] s') ∧
    ∀ (s' : Storage) olderThan, s'.clock.addSeconds (-olderThan) = cutoff →
      reapStale workflow olderThan s' = reapUpTo workflow cutoff s' := by
  intro reaped
  refine ⟨reapUpTo_of_calm calm distinct, fun s' calm' htables => ?_, ?_⟩
  · -- no row is overdue any more
    have hnone : ∀ e ∈ s'.tables.executions, ¬ e.Overdue workflow cutoff := by
      rw [htables]
      intro e he hoverdue
      obtain ⟨x, hx, rfl⟩ := List.mem_map.mp he
      split at hoverdue
      · cases hoverdue.running
      · next hfresh => exact hfresh hoverdue
    have hdistinct : (s'.tables.executions.map Execution.id).Nodup := by
      have hids : reaped.tables.executions.map Execution.id =
          s.tables.executions.map Execution.id := Storage.ids_mapExecutions fun e => by
        split <;> rfl
      rwa [htables, hids]
    rw [reapUpTo_of_calm calm' hdistinct,
      Storage.mapExecutions_of_same fun e he => if_neg (hnone e he),
      List.filter_eq_nil_iff.mpr fun e he => by simpa using hnone e he]
    rfl
  · rintro s' olderThan rfl
    exact reapStale_apply workflow olderThan s'

end

/-! ### A store in which one row is overdue -/

def rowBegun (n : Nat) (workflow : WorkflowId) (seconds : Int) (status : ExecutionStatus) :
    Execution :=
  { Execution.start (Uuid.ofHalves 0 n) workflow "event.created" [("n", .null)]
      (Timestamp.epoch.addSeconds seconds) with status }

def fourRows : Storage :=
  { Storage.fresh (.ofNames fun _ n => Uuid.ofHalves 0 n) (Timestamp.epoch.addSeconds 90) with
    tables := { Tables.empty with
      executions := [rowBegun 1 Uuid.nil 31 .running, rowBegun 2 Uuid.nil 30 .running,
        rowBegun 3 (Uuid.ofHalves 0 9) 30 .running, rowBegun 4 Uuid.nil 0 .completed] } }

/-- On `fourRows`, with a cutoff at second 30, the reaper closes the row that began then, and none
the next time. -/
theorem fourRows_reaped : ∃ s : Storage,
    reapStale Uuid.nil 60 fourRows = .ok [Uuid.ofHalves 0 2] s ∧
      s.tables.executions.map Execution.status = [.running, .failed, .running, .completed] ∧
      reapStale Uuid.nil 60 s = .ok [] s := by
  obtain ⟨hreaped, hagain, hcutoff⟩ := reaping_is_exact (s := fourRows) rfl (by decide) Uuid.nil
    (Timestamp.epoch.addSeconds 30)
  have hids : (fourRows.tables.executions.filter fun e =>
      e.Overdue Uuid.nil (Timestamp.epoch.addSeconds 30)).map Execution.id =
        [Uuid.ofHalves 0 2] := by decide
  rw [hids] at hreaped
  refine ⟨_, (hcutoff fourRows 60 rfl).trans hreaped, by decide, ?_⟩
  exact (hcutoff _ 60 rfl).trans (hagain _ rfl rfl)

end TriggerFlow
