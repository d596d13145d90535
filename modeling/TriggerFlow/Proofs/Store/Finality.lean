import TriggerFlow.Proofs.Store.Rows
/-!
# Rows of executions, operation by operation

Whoever uses a store does so by operations on its tables, one after the other (`Tables.Operation`).

* `getElem?_afterAll`, `getExecution_afterAll`: over any sequence of operations, a row of an
  execution stays where it is and is found as before, keeps what it said of the start of the run,
  and is the same row if it was closed (`Execution.Precedes`).
* `getExecution_afterAll_of_running`, `updateExecution_afterAll`: a running row becomes what the
  first operation that closes it writes (`Operation.closing?`), and whoever else tries to is
  refused.

What an operation does to the rows of executions is said once, by `Tables.Touches`: most of them
leave all as they are, one adds a row at the end, and one writes a row that is not closed.
-/

namespace TriggerFlow

/-- The row `e'` is what `e` may have become: it says the same of the start of the run, and is `e`
if `e` is terminal. -/
structure Execution.Precedes (e e' : Execution) : Prop where
  id : e'.id = e.id
  workflow : e'.workflow = e.workflow
  triggerType : e'.triggerType = e.triggerType
  triggerData : e'.triggerData = e.triggerData
  startedAt : e'.startedAt = e.startedAt
  final : e.status.isTerminal = true → e' = e

theorem Execution.Precedes.refl (e : Execution) : e.Precedes e :=
  ⟨rfl, rfl, rfl, rfl, rfl, fun _ => rfl⟩

theorem Execution.Precedes.trans {e e' e'' : Execution} (h : e.Precedes e')
    (h' : e'.Precedes e'') : e.Precedes e'' := by
  refine ⟨h'.id.trans h.id, h'.workflow.trans h.workflow, h'.triggerType.trans h.triggerType,
    h'.triggerData.trans h.triggerData, h'.startedAt.trans h.startedAt, ?_⟩
  intro hterminal
  obtain rfl := h.final hterminal
  exact h'.final hterminal

namespace Tables

variable {t t' : Tables} {id : ExecutionId} {e row : Execution}

/-! ### Operations -/

/-- What can be asked of `Tables`.  A row that is inserted comes with its identifier. -/
inductive Operation where
  | insertWorkflow (row : Workflow)
  | updateWorkflow (row : Workflow) (now : Timestamp)
  | getWorkflow (id : WorkflowId) (withDeleted : Bool)
  | listWorkflows (organization : OrganizationId) (withDeleted : Bool)
  | findActive (organization : OrganizationId) (triggerType : TriggerType)
  | softDeleteWorkflow (id : WorkflowId) (now : Timestamp)
  | hardDeleteWorkflow (id : WorkflowId)
  | insertNode (row : Node)
  | updateNode (row : Node)
  | getNode (id : NodeId) (withDeleted : Bool)
  | listNodes (workflow : WorkflowId) (withDeleted : Bool)
  | softDeleteNode (id : NodeId)
  | hardDeleteNode (id : NodeId)
  | insertConnection (row : Connection)
  | listConnections (workflow : WorkflowId)
  | deleteConnection (id : ConnectionId)
  | insertExecution (row : Execution)
  | updateExecution (row : Execution)
  | getExecution (id : ExecutionId)
  | listExecutions (workflow : WorkflowId)

/-- The tables of an answer, and `t` for a refusal. -/
def resulting {α : Type} (t : Tables) : Outcome α → Tables
  | .ok (_, t') => t'
  | .error _ => t

/-- The tables after an operation, `resulting` from what `Tables` answers. -/
def after (t : Tables) : Operation → Tables
  | .insertWorkflow row => t.resulting (t.insertWorkflow row)
  | .updateWorkflow row now => t.resulting (t.updateWorkflow row now)
  | .softDeleteWorkflow id now => t.resulting (t.softDeleteWorkflow id now)
  | .hardDeleteWorkflow id => t.resulting (t.hardDeleteWorkflow id)
  | .insertNode row => t.resulting (t.insertNode row)
  | .updateNode row => t.resulting (t.updateNode row)
  | .softDeleteNode id => t.resulting (t.softDeleteNode id)
  | .hardDeleteNode id => t.resulting (t.hardDeleteNode id)
  | .insertConnection row => t.resulting (t.insertConnection row)
  | .deleteConnection id => t.resulting (t.deleteConnection id)
  | .insertExecution row => t.resulting (t.insertExecution row)
  | .updateExecution row => t.resulting (t.updateExecution row)
  | .getWorkflow .. | .listWorkflows .. | .findActive .. | .getNode .. | .listNodes ..
  | .listConnections .. | .getExecution .. | .listExecutions .. => t

/-- The tables after `ops`, one after the other. -/
def afterAll (t : Tables) (ops : List Operation) : Tables := ops.foldl after t

@[simp] theorem afterAll_cons (t : Tables) (op : Operation) (ops : List Operation) :
    t.afterAll (op :: ops) = (t.after op).afterAll ops := rfl

theorem afterAll_append (t : Tables) (ops ops' : List Operation) :
    t.afterAll (ops ++ ops') = (t.afterAll ops).afterAll ops' := List.foldl_append

theorem afterAll_concat (t : Tables) (ops : List Operation) (op : Operation) :
    t.afterAll (ops ++ [op]) = (t.afterAll ops).after op := afterAll_append t ops [op]

/-- The row with which an operation means to close the execution `id`: the terminal row of an
`updateExecution`. -/
def Operation.closing? (id : ExecutionId) : Operation → Option Execution
  | updateExecution row => if row.id = id ∧ row.status.isTerminal = true then some row else none
  | _ => none

/-! ### What one operation does to executions -/

/-- The executions that an operation may leave: those that were there, those with a row at the end,
or those with a running row `written`. -/
inductive Touches (t : Tables) : Operation → List Execution → Prop
  | nothing {op : Operation} : Touches t op t.executions
  | insert {row : Execution} : Touches t (.insertExecution row) (t.executions ++ [row])
  | write {row stored : Execution} (found : t.getExecution row.id = some stored)
      (running : stored.status = .running) :
      Touches t (.updateExecution row)
        (replaceFirst (fun e => e.id == row.id) (written stored row) t.executions)

/-- A row whose stored status is terminal is refused with `conflict`. -/
theorem updateExecution_of_terminal (hfound : t.getExecution row.id = some e)
    (hterminal : e.status.isTerminal = true) :
    t.updateExecution row = .error (.conflict ("execution " ++ row.id.text ++ " is already "
      ++ Vocabulary.text e.status)) := by
  unfold updateExecution
  rw [hfound]
  simp only [hterminal, if_true]

theorem touches_resulting {α : Type} {op : Operation} {o : Outcome α}
    (h : ∀ a t', o = .ok (a, t') → t'.executions = t.executions) :
    Touches t op (t.resulting o).executions := by
  cases o with
  | error e => exact .nothing
  | ok answer =>
    have hsame : (t.resulting (.ok answer)).executions = t.executions := h _ _ rfl
    rw [hsame]
    exact .nothing

theorem touches_updateExecution (t : Tables) (row : Execution) :
    Touches t (.updateExecution row) (t.resulting (t.updateExecution row)).executions := by
  cases h : t.updateExecution row with
  | error e => exact .nothing
  | ok answer =>
    obtain ⟨stored, hfound, hrunning, htables⟩ := updateExecution_eq_ok h
    have hwritten : (t.resulting (.ok answer)).executions =
        replaceFirst (fun e => e.id == row.id) (written stored row) t.executions := by
      rw [resulting, htables]
    rw [hwritten]
    exact .write hfound hrunning

theorem touches_after (t : Tables) (op : Operation) : Touches t op (t.after op).executions := by
  -- but for the two operations on executions, all leave these rows alone
  cases op with
  | insertExecution row => exact .insert
  | updateExecution row => exact touches_updateExecution t row
  | insertWorkflow row =>
    refine touches_resulting fun w t' h => ?_
    obtain ⟨-, -, rfl⟩ := insertWorkflow_eq_ok h
    rfl
  | updateWorkflow row now =>
    refine touches_resulting fun w t' h => ?_
    obtain ⟨stored, -, -, rfl⟩ := updateWorkflow_eq_ok h
    rfl
  | softDeleteWorkflow id now =>
    refine touches_resulting fun u t' h => ?_
    obtain ⟨stored, -, rfl⟩ := softDeleteWorkflow_eq_ok h
    rfl
  | hardDeleteWorkflow id =>
    refine touches_resulting fun u t' h => ?_
    rw [hardDeleteWorkflow_eq_ok h]
  | insertNode row =>
    refine touches_resulting fun n t' h => ?_
    obtain ⟨-, -, rfl⟩ := insertNode_eq_ok h
    rfl
  | updateNode row =>
    refine touches_resulting fun n t' h => ?_
    obtain ⟨stored, -, -, rfl⟩ := updateNode_eq_ok h
    rfl
  | softDeleteNode id =>
    refine touches_resulting fun u t' h => ?_
    obtain ⟨stored, -, rfl⟩ := softDeleteNode_eq_ok h
    rfl
  | hardDeleteNode id =>
    refine touches_resulting fun u t' h => ?_
    rw [hardDeleteNode_eq_ok h]
  | insertConnection row =>
    refine touches_resulting fun c t' h => ?_
    obtain ⟨-, -, rfl⟩ := insertConnection_eq_ok h
    rfl
  | deleteConnection id =>
    refine touches_resulting fun u t' h => ?_
    rw [deleteConnection_eq_ok h]
  | _ => exact .nothing

/-! ### Rows stay where they are -/

/-- Replacing the first hit by a row that it `Precedes` leaves at every place a row that the one
before precedes. -/
theorem getElem?_replaceFirst {p : Execution → Bool} {as : List Execution} {stored : Execution}
    (hfound : as.find? p = some stored) (hrow : stored.Precedes row) {i : Nat}
    (h : as[i]? = some e) : ∃ e', (replaceFirst p row as)[i]? = some e' ∧ e.Precedes e' := by
  induction as generalizing i with
  | nil => simp at h
  | cons b bs ih =>
    rw [replaceFirst]
    cases hb : p b with
    | true =>
      rw [List.find?_cons_of_pos hb] at hfound
      obtain rfl := Option.some.inj hfound
      cases i with
      | zero =>
        obtain rfl : b = e := by simpa using h
        exact ⟨row, rfl, hrow⟩
      | succ i => exact ⟨e, h, .refl e⟩
    | false =>
      rw [List.find?_cons_of_neg (by simp [hb])] at hfound
      cases i with
      | zero => exact ⟨e, h, .refl e⟩
      | succ i => exact ih hfound h

theorem written_written (stored first second : Execution) :
    written (written stored first) second = written stored second := rfl

theorem precedes_written (stored row : Execution) (hrunning : stored.status = .running) :
    stored.Precedes (written stored row) := by
  refine ⟨rfl, rfl, rfl, rfl, rfl, ?_⟩
  intro hterminal
  rw [hrunning] at hterminal
  simp [ExecutionStatus.isTerminal] at hterminal

theorem Touches.getElem? {op : Operation} {rows : List Execution} (h : Touches t op rows) {i : Nat}
    (hi : t.executions[i]? = some e) : ∃ e', rows[i]? = some e' ∧ e.Precedes e' := by
  cases h with
  | nothing => exact ⟨e, hi, .refl e⟩
  | insert =>
    have hlt : i < t.executions.length := (List.getElem?_eq_some_iff.mp hi).1
    exact ⟨e, by rwa [List.getElem?_append_left hlt], .refl e⟩
  | write found running => exact getElem?_replaceFirst found (precedes_written _ _ running) hi

/-- Over any sequence of operations a row stays at its place `i`, and `Precedes` what stands there.
-/
theorem getElem?_afterAll (ops : List Operation) {i : Nat} (h : t.executions[i]? = some e) :
    ∃ e', (t.afterAll ops).executions[i]? = some e' ∧ e.Precedes e' := by
  induction ops generalizing t e with
  | nil => exact ⟨e, h, .refl e⟩
  | cons op ops ih =>
    obtain ⟨e', h', hprecedes⟩ := (touches_after t op).getElem? h
    obtain ⟨e'', h'', hprecedes'⟩ := ih h'
    exact ⟨e'', h'', hprecedes.trans hprecedes'⟩

/-! ### The row that is found -/

theorem find?_replaceFirst_of_ne {id' : ExecutionId} (hne : id' ≠ id) (hrow : row.id = id')
    (as : List Execution) :
    (replaceFirst (fun e => e.id == id') row as).find? (fun e => e.id == id)
      = as.find? fun e => e.id == id := by
  induction as with
  | nil => rfl
  | cons b bs ih =>
    rw [replaceFirst]
    cases hb : b.id == id' with
    | true =>
      have hb : b.id = id' := by simpa using hb
      rw [if_pos rfl, List.find?_cons_of_neg (by simp [hrow, hne]),
        List.find?_cons_of_neg (by simp [hb, hne])]
    | false => rw [if_neg Bool.false_ne_true, List.find?_cons, List.find?_cons, ih]

/-- What an operation makes of the row that is found under an identifier: nothing, or `written` over
it while it is running. -/
theorem getExecution_after (op : Operation) (hfound : t.getExecution id = some e) :
    (t.after op).getExecution id = some e ∨
      e.status = .running ∧ ∃ row, op = .updateExecution row ∧ row.id = id ∧
        (t.after op).getExecution id = some (written e row) := by
  have htouches := touches_after t op
  unfold getExecution at hfound ⊢
  generalize (t.after op).executions = rows at htouches ⊢
  cases htouches with
  | nothing => exact .inl hfound
  | insert => exact .inl (by rw [List.find?_append, hfound, Option.some_or])
  | @write row stored found running =>
    have hstored : stored.id = row.id := id_of_getExecution found
    have hwritten : (written stored row).id = row.id := hstored
    by_cases hid : row.id = id
    · subst hid
      obtain rfl := Option.some.inj (hfound.symm.trans found)
      exact .inr ⟨running, row, rfl, rfl, find?_replaceFirst found (by simp [hwritten])⟩
    · exact .inl (by rw [find?_replaceFirst_of_ne hid hwritten, hfound])

/-- Over any sequence of operations a row that is found under an identifier `Precedes` the one found
there. -/
theorem getExecution_afterAll (ops : List Operation) (hfound : t.getExecution id = some e) :
    ∃ e', (t.afterAll ops).getExecution id = some e' ∧ e.Precedes e' := by
  induction ops generalizing t e with
  | nil => exact ⟨e, hfound, .refl e⟩
  | cons op ops ih =>
    rcases getExecution_after op hfound with hfound' | ⟨running, row, -, -, hfound'⟩
    · exact ih hfound'
    · obtain ⟨e', h, hprecedes⟩ := ih hfound'
      exact ⟨e', h, (precedes_written _ _ running).trans hprecedes⟩

/-! ### Whoever comes first closes the row -/

theorem closing?_eq_some_iff {op : Operation} :
    op.closing? id = some row ↔
      op = .updateExecution row ∧ row.id = id ∧ row.status.isTerminal = true := by
  cases op with
  | updateExecution row' =>
    rw [Operation.closing?, Option.ite_none_right_eq_some, Option.some.injEq,
      Operation.updateExecution.injEq]
    constructor
    · rintro ⟨h, rfl⟩
      exact ⟨rfl, h⟩
    · rintro ⟨rfl, h⟩
      exact ⟨h, rfl⟩
  | _ => simp [Operation.closing?]

theorem accepted_of_running (hfound : t.getExecution row.id = some e)
    (hrunning : e.status = .running) :
    ∃ t', t.updateExecution row = .ok ((), t') ∧ t'.getExecution row.id = some (written e row) := by
  have hid : e.id = row.id := id_of_getExecution hfound
  have hid : (written e row).id = row.id := hid
  exact ⟨_, updateExecution_of_running hfound hrunning, getExecution_replaceFirst hfound hid⟩

theorem running_of_closing? (h : (Operation.updateExecution row).closing? row.id = none) :
    row.status = .running := by
  rw [eq_running_iff, ← Bool.not_eq_true]
  intro hterminal
  rw [closing?_eq_some_iff.mpr ⟨rfl, rfl, hterminal⟩] at h
  simp at h

/-- A running row goes on running if none of `ops` is `closing?` it; otherwise it becomes what the
first that is writes, and remains that. -/
theorem getExecution_afterAll_of_running (ops : List Operation)
    (hfound : t.getExecution id = some e) (hrunning : e.status = .running) :
    (ops.findSome? (Operation.closing? id) = none ∧
      ∃ e', (t.afterAll ops).getExecution id = some e' ∧ e'.status = .running) ∨
    ∃ first, ops.findSome? (Operation.closing? id) = some first ∧ first.status.isTerminal = true ∧
      (t.afterAll ops).getExecution id = some (written e first) := by
  induction ops generalizing t e with
  | nil => exact .inl ⟨rfl, e, hfound, hrunning⟩
  | cons op ops ih =>
    rw [List.findSome?_cons]
    cases hop : op.closing? id with
    | some row =>
      obtain ⟨rfl, rfl, hterminal⟩ := closing?_eq_some_iff.mp hop
      obtain ⟨t', haccepted, hclosed⟩ := accepted_of_running hfound hrunning
      obtain ⟨e', hfound', hprecedes⟩ := getExecution_afterAll ops hclosed
      rw [hprecedes.final hterminal] at hfound'
      refine .inr ⟨row, rfl, hterminal, ?_⟩
      rwa [afterAll_cons, after, haccepted]
    | none =>
      rcases getExecution_after op hfound with hfound' | ⟨-, row, rfl, rfl, hfound'⟩
      · exact ih hfound' hrunning
      · have hstatus : row.status = .running := running_of_closing? hop
        simpa only [afterAll_cons, written_written] using ih hfound' hstatus

theorem written_of_precedes {e' : Execution} (h : e.Precedes e') (row : Execution) :
    written e' row = written e row := by
  unfold written
  rw [h.id, h.workflow, h.triggerType, h.triggerData, h.startedAt]

/-- A running row can be written after `ops` if no operation among them closes it; else the write is
refused with the status that the first of these has given to the row. -/
theorem updateExecution_afterAll (ops : List Operation) (hfound : t.getExecution row.id = some e)
    (hrunning : e.status = .running) :
    (ops.findSome? (Operation.closing? row.id) = none →
      ∃ t', (t.afterAll ops).updateExecution row = .ok ((), t') ∧
        t'.getExecution row.id = some (written e row)) ∧
    ∀ first, ops.findSome? (Operation.closing? row.id) = some first →
      (t.afterAll ops).updateExecution row =
        .error (.conflict ("execution " ++ row.id.text ++ " is already "
          ++ Vocabulary.text first.status)) := by
  -- either the row is still open, or the first who has closed it is known
  rcases getExecution_afterAll_of_running ops hfound hrunning with
    ⟨hopen, e', hfound', hrunning'⟩ | ⟨first, hfirst, hclosed, hfound'⟩
  · refine ⟨fun _ => ?_, fun first hfirst => ?_⟩
    · obtain ⟨e'', hfound'', hprecedes⟩ := getExecution_afterAll ops hfound
      obtain rfl := Option.some.inj (hfound'.symm.trans hfound'')
      rw [← written_of_precedes hprecedes]
      exact accepted_of_running hfound' hrunning'
    · rw [hopen] at hfirst
      simp at hfirst
  · refine ⟨fun hopen => ?_, fun first' hfirst' => ?_⟩
    · rw [hfirst] at hopen
      simp at hopen
    · obtain rfl := Option.some.inj (hfirst.symm.trans hfirst')
      exact updateExecution_of_terminal (e := written e first) hfound' hclosed

end Tables

end TriggerFlow
