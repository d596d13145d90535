import TriggerFlow.Proofs.Authoring.Effects
import TriggerFlow.Proofs.Store.Finality
/-!
# What is refused is not done

An operation that is refused leaves all tables as they were, whatever refuses it: a rule, a row that
is missing, a conflict, or a call of the store that fails in the midst of it
(`refusals_change_nothing`).

An operation on `Tables` that is refused answers with no tables, and so has nothing to undo.  A
store that changes its rows where they are cannot take this for granted.  `Tables.InPlace` is such a
store: it removes rows first and finds out afterwards whether there were any (`InPlace.remove`).  It
does the same nevertheless (`does_inPlace`), since what it has removed by then is nothing.
-/

namespace TriggerFlow

theorem discard_apply {ε σ α : Type} (work : EStateM ε σ α) (s : σ) :
    (discard work) s = match work s with
      | .ok _ s' => .ok () s'
      | .error e s' => .error e s' := rfl

/-- A refusal with `discard` is one without it. -/
theorem discard_eq_error {ε σ α : Type} {work : EStateM ε σ α} {s s' : σ} {e : ε}
    (h : (discard work) s = .error e s') : work s = .error e s' := by
  rw [discard_apply] at h
  cases hwork : work s with
  | ok a s₁ =>
    rw [hwork] at h
    cases h
  | error e₁ s₁ =>
    rw [hwork] at h
    obtain ⟨rfl, rfl⟩ := EStateM.Result.error.inj h
    rfl

namespace Tables

variable {α : Type} {t t' : Tables}

/-! ### Tables that change in place -/

abbrev InPlace (α : Type) := EStateM StoreError Tables α

namespace InPlace

/-- Removes the rows that are `gone` from one of the tables, and then counts what is left to see
whether there were any. -/
def remove (rows : Tables → List α) (withRows : List α → Tables → Tables) (gone : α → Bool)
    (missing : StoreError) : InPlace Unit := do
  let before := (rows (← get)).length
  modify fun t => withRows ((rows t).filter fun a => !gone a) t
  if (rows (← get)).length = before then throw missing

/-- Overwrites the first row that is `sought` with `row` of it. -/
def overwrite (rows : Tables → List α) (withRows : List α → Tables → Tables) (sought : α → Bool)
    (row : α → α) (missing : StoreError) : InPlace α := do
  match (rows (← get)).find? sought with
  | none => throw missing
  | some slot =>
    modify fun t => withRows (replaceFirst sought (row slot) (rows t)) t
    return row slot

def insertWorkflow (row : Workflow) : InPlace Workflow := do
  if (← get).workflows.any fun w => w.id == row.id then
    throw (.conflict ("workflow " ++ row.id.text ++ " exists"))
  modify fun t => { t with workflows := t.workflows ++ [row] }
  return row

def updateWorkflow (row : Workflow) (now : Timestamp) : InPlace Workflow :=
  overwrite workflows (fun rows t => { t with workflows := rows }) (fun w => w.id == row.id)
    (fun slot => { row with updated := now, deleted := slot.deleted })
    (.notFound "Workflow" row.id.text)

def softDeleteWorkflow (id : WorkflowId) (now : Timestamp) : InPlace Unit :=
  discard <| overwrite workflows (fun rows t => { t with workflows := rows })
    (fun w => w.id == id) (fun slot => { slot with deleted := true, updated := now })
    (.notFound "Workflow" id.text)

def hardDeleteWorkflow (id : WorkflowId) : InPlace Unit := do
  remove workflows (fun rows t => { t with workflows := rows }) (fun w => w.id == id)
    (.notFound "Workflow" id.text)
  modify fun t => { t with nodes := t.nodes.filter fun n => n.workflow != id }
  modify fun t => { t with connections := t.connections.filter fun c => c.workflow != id }

def insertNode (row : Node) : InPlace Node := do
  if !(← get).workflows.any fun w => w.id == row.workflow then
    throw (.notFound "Workflow" row.workflow.text)
  modify fun t => { t with nodes := t.nodes ++ [row] }
  return row

def updateNode (row : Node) : InPlace Node :=
  overwrite nodes (fun rows t => { t with nodes := rows }) (fun n => n.id == row.id)
    (fun slot => { row with deleted := slot.deleted }) (.notFound "Node" row.id.text)

def softDeleteNode (id : NodeId) : InPlace Unit :=
  discard <| overwrite nodes (fun rows t => { t with nodes := rows }) (fun n => n.id == id)
    (fun slot => { slot with deleted := true }) (.notFound "Node" id.text)

def hardDeleteNode (id : NodeId) : InPlace Unit := do
  remove nodes (fun rows t => { t with nodes := rows }) (fun n => n.id == id)
    (.notFound "Node" id.text)
  modify fun t =>
    { t with connections := t.connections.filter fun c => c.target != id && c.source != some id }

def insertConnection (row : Connection) : InPlace Connection := do
  if !(← get).workflows.any fun w => w.id == row.workflow then
    throw (.notFound "Workflow" row.workflow.text)
  modify fun t => { t with connections := t.connections ++ [row] }
  return row

def deleteConnection (id : ConnectionId) : InPlace Unit :=
  remove connections (fun rows t => { t with connections := rows }) (fun c => c.id == id)
    (.notFound "Connection" id.text)

def insertExecution (row : Execution) : InPlace Execution := do
  modify fun t => { t with executions := t.executions ++ [row] }
  return row

def updateExecution (row : Execution) : InPlace Unit := do
  match (← get).executions.find? fun e => e.id == row.id with
  | none => throw (.notFound "Execution" row.id.text)
  | some slot =>
    if slot.status.isTerminal then
      throw (.conflict ("execution " ++ row.id.text ++ " is already "
        ++ Vocabulary.text slot.status))
    modify fun t =>
      { t with
        executions := replaceFirst (fun e => e.id == row.id) (written slot row) t.executions }

end InPlace

/-! ### They do the same -/

def answer (t : Tables) : Outcome α → EStateM.Result StoreError Tables α
  | .ok (a, t') => .ok a t'
  | .error e => .error e t

theorem leftBy_answer (t : Tables) (o : Outcome α) : leftBy (t.answer o) = t.resulting o := by
  cases o <;> rfl

theorem answer_eq_error {o : Outcome α} {e : StoreError} (h : t.answer o = .error e t') :
    t' = t := by
  cases o with
  | ok result => cases h
  | error refusal => exact (EStateM.Result.error.inj h).2.symm

namespace InPlace

/-- What `remove` does: if any row is `gone` they all go, and otherwise it is refused and the tables
are as before. -/
theorem remove_apply {rows : Tables → List α} {withRows : List α → Tables → Tables}
    {gone : α → Bool} {missing : StoreError} (hrows : ∀ as, rows (withRows as t) = as)
    (hsame : withRows (rows t) t = t) :
    remove rows withRows gone missing t =
      if (rows t).any gone then .ok () (withRows ((rows t).filter fun a => !gone a) t)
      else .error missing t := by
  have hrun : remove rows withRows gone missing t =
      if ((rows t).filter fun a => !gone a).length = (rows t).length then
        .error missing (withRows ((rows t).filter fun a => !gone a) t)
      else .ok () (withRows ((rows t).filter fun a => !gone a) t) := by
    rw [remove, bind_of_ok (get_apply t), bind_of_ok (modify_apply _ t),
      bind_of_ok (get_apply _), hrows]
    split <;> rfl
  rw [hrun]
  cases hany : (rows t).any gone with
  | true =>
    -- one row at least is missing from the count
    obtain ⟨a, ha, hgone⟩ := List.any_eq_true.mp hany
    have hfewer : ((rows t).filter fun a => !gone a).length ≠ (rows t).length := by
      rw [ne_eq, List.length_filter_eq_length_iff]
      intro hall
      simpa [hgone] using hall a ha
    rw [if_neg hfewer, if_pos rfl]
  | false =>
    -- what has been written back by the time of the refusal are the rows that were there
    have hall : ((rows t).filter fun a => !gone a) = rows t :=
      List.filter_eq_self.mpr fun a ha => by simpa using List.any_eq_false.mp hany a ha
    rw [hall, hsame, if_pos rfl, if_neg Bool.false_ne_true]

theorem overwrite_apply {rows : Tables → List α} {withRows : List α → Tables → Tables}
    {sought : α → Bool} {row : α → α} {missing : StoreError} :
    overwrite rows withRows sought row missing t = match (rows t).find? sought with
      | none => .error missing t
      | some slot =>
        .ok (row slot) (withRows (replaceFirst sought (row slot) (rows t)) t) := by
  rw [overwrite, bind_of_ok (get_apply t)]
  cases (rows t).find? sought <;> rfl

theorem insertWorkflow_apply (row : Workflow) (t : Tables) :
    insertWorkflow row t = t.answer (t.insertWorkflow row) := by
  rw [insertWorkflow, Tables.insertWorkflow, bind_of_ok (get_apply t)]
  split <;> rfl

theorem updateWorkflow_apply (row : Workflow) (now : Timestamp) (t : Tables) :
    updateWorkflow row now t = t.answer (t.updateWorkflow row now) := by
  rw [updateWorkflow, overwrite_apply, Tables.updateWorkflow]
  simp only [getWorkflow, Bool.true_or, Bool.and_true]
  cases t.workflows.find? fun w => w.id == row.id <;> rfl

theorem softDeleteWorkflow_apply (id : WorkflowId) (now : Timestamp) (t : Tables) :
    softDeleteWorkflow id now t = t.answer (t.softDeleteWorkflow id now) := by
  rw [softDeleteWorkflow, discard_apply, overwrite_apply, Tables.softDeleteWorkflow]
  simp only [getWorkflow, Bool.true_or, Bool.and_true]
  cases t.workflows.find? fun w => w.id == id <;> rfl

theorem hardDeleteWorkflow_apply (id : WorkflowId) (t : Tables) :
    hardDeleteWorkflow id t = t.answer (t.hardDeleteWorkflow id) := by
  rw [hardDeleteWorkflow, Tables.hardDeleteWorkflow, bind_apply, remove_apply (fun _ => rfl) rfl]
  cases t.workflows.any fun w => w.id == id <;> rfl

theorem insertNode_apply (row : Node) (t : Tables) :
    insertNode row t = t.answer (t.insertNode row) := by
  rw [insertNode, Tables.insertNode, bind_of_ok (get_apply t)]
  cases t.workflows.any fun w => w.id == row.workflow <;> rfl

theorem updateNode_apply (row : Node) (t : Tables) :
    updateNode row t = t.answer (t.updateNode row) := by
  rw [updateNode, overwrite_apply, Tables.updateNode]
  simp only [getNode, Bool.true_or, Bool.and_true]
  cases t.nodes.find? fun n => n.id == row.id <;> rfl

theorem softDeleteNode_apply (id : NodeId) (t : Tables) :
    softDeleteNode id t = t.answer (t.softDeleteNode id) := by
  rw [softDeleteNode, discard_apply, overwrite_apply, Tables.softDeleteNode]
  simp only [getNode, Bool.true_or, Bool.and_true]
  cases t.nodes.find? fun n => n.id == id <;> rfl

theorem hardDeleteNode_apply (id : NodeId) (t : Tables) :
    hardDeleteNode id t = t.answer (t.hardDeleteNode id) := by
  rw [hardDeleteNode, Tables.hardDeleteNode, bind_apply, remove_apply (fun _ => rfl) rfl]
  cases t.nodes.any fun n => n.id == id <;> rfl

theorem insertConnection_apply (row : Connection) (t : Tables) :
    insertConnection row t = t.answer (t.insertConnection row) := by
  rw [insertConnection, Tables.insertConnection, bind_of_ok (get_apply t)]
  cases t.workflows.any fun w => w.id == row.workflow <;> rfl

theorem deleteConnection_apply (id : ConnectionId) (t : Tables) :
    deleteConnection id t = t.answer (t.deleteConnection id) := by
  rw [deleteConnection, Tables.deleteConnection, remove_apply (fun _ => rfl) rfl]
  cases t.connections.any fun c => c.id == id <;> rfl

theorem updateExecution_apply (row : Execution) (t : Tables) :
    updateExecution row t = t.answer (t.updateExecution row) := by
  rw [updateExecution, bind_of_ok (get_apply t)]
  cases hfound : t.getExecution row.id with
  | none =>
    rw [Tables.updateExecution, hfound]
    rw [getExecution] at hfound
    rw [hfound]
    rfl
  | some stored =>
    cases hterminal : stored.status.isTerminal with
    | true =>
      rw [updateExecution_of_terminal hfound hterminal]
      rw [getExecution] at hfound
      simp only [hfound, hterminal]
      rfl
    | false =>
      rw [updateExecution_of_running hfound (eq_running_iff.mpr hterminal)]
      rw [getExecution] at hfound
      simp only [hfound, hterminal]
      rfl

end InPlace

/-! ### Whatever is asked of tables -/

def Operation.inPlace : Operation → InPlace Unit
  | insertWorkflow row => discard <| InPlace.insertWorkflow row
  | updateWorkflow row now => discard <| InPlace.updateWorkflow row now
  | softDeleteWorkflow id now => InPlace.softDeleteWorkflow id now
  | hardDeleteWorkflow id => InPlace.hardDeleteWorkflow id
  | insertNode row => discard <| InPlace.insertNode row
  | updateNode row => discard <| InPlace.updateNode row
  | softDeleteNode id => InPlace.softDeleteNode id
  | hardDeleteNode id => InPlace.hardDeleteNode id
  | insertConnection row => discard <| InPlace.insertConnection row
  | deleteConnection id => InPlace.deleteConnection id
  | insertExecution row => discard <| InPlace.insertExecution row
  | updateExecution row => InPlace.updateExecution row
  | getWorkflow .. | listWorkflows .. | findActive .. | getNode .. | listNodes ..
  | listConnections .. | getExecution .. | listExecutions .. => return ()

/-- The call by which a store in use is asked for an operation.  It draws identifiers and reads the
clock itself, so that it has no use for those of the operation. -/
def Operation.call : Operation → Access Unit
  | insertWorkflow row => discard <| Storage.insertWorkflow row
  | updateWorkflow row _ => discard <| Storage.updateWorkflow row
  | getWorkflow id withDeleted => discard <| Storage.getWorkflow id withDeleted
  | listWorkflows organization withDeleted =>
    discard <| Storage.listWorkflows organization withDeleted
  | findActive organization triggerType =>
    discard <| Storage.findActiveWorkflows organization triggerType
  | softDeleteWorkflow id _ => Storage.softDeleteWorkflow id
  | hardDeleteWorkflow id => Storage.hardDeleteWorkflow id
  | insertNode row => discard <| Storage.insertNode row
  | updateNode row => discard <| Storage.updateNode row
  | getNode id withDeleted => discard <| Storage.getNode id withDeleted
  | listNodes workflow withDeleted => discard <| Storage.listNodes workflow withDeleted
  | softDeleteNode id => Storage.softDeleteNode id
  | hardDeleteNode id => Storage.hardDeleteNode id
  | insertConnection row => discard <| Storage.insertConnection row
  | listConnections workflow => discard <| Storage.listConnections workflow
  | deleteConnection id => Storage.deleteConnection id
  | insertExecution row => discard <| Storage.insertExecution row
  | updateExecution row => Storage.updateExecution row
  | getExecution id => discard <| Storage.getExecution id
  | listExecutions workflow => discard <| Storage.listExecutions workflow

/-- Work in place leaves the tables of `Tables.after`, and `t` itself if it is refused. -/
structure Does (t : Tables) (op : Operation) (result : EStateM.Result StoreError Tables Unit) :
    Prop where
  leaves : leftBy result = t.after op
  undone : ∀ e t', result = .error e t' → t' = t

theorem does_of_answer {op : Operation} {o : Outcome Unit} {work : InPlace Unit}
    (h : work t = t.answer o) (after : t.after op = t.resulting o) : Does t op (work t) := by
  rw [h]
  refine ⟨(leftBy_answer t o).trans after.symm, fun e t' => answer_eq_error⟩

theorem does_of_discarded {op : Operation} {o : Outcome α} {work : InPlace α}
    (h : work t = t.answer o) (after : t.after op = t.resulting o) :
    Does t op ((discard work) t) := by
  have hleft : leftBy ((discard work) t) = leftBy (work t) := by
    rw [discard_apply]
    cases work t <;> rfl
  refine ⟨?_, fun e t' hrefused => ?_⟩
  · rw [hleft, h, leftBy_answer, after]
  · have hwork := discard_eq_error hrefused
    exact answer_eq_error (h.symm.trans hwork)

/-- For each operation, `inPlace` does what `Tables.after` says. -/
theorem does_inPlace (op : Operation) (t : Tables) : Does t op (op.inPlace t) := by
  cases op with
  | insertWorkflow row => exact does_of_discarded (InPlace.insertWorkflow_apply row t) rfl
  | updateWorkflow row now => exact does_of_discarded (InPlace.updateWorkflow_apply row now t) rfl
  | softDeleteWorkflow id now =>
    exact does_of_answer (InPlace.softDeleteWorkflow_apply id now t) rfl
  | hardDeleteWorkflow id => exact does_of_answer (InPlace.hardDeleteWorkflow_apply id t) rfl
  | insertNode row => exact does_of_discarded (InPlace.insertNode_apply row t) rfl
  | updateNode row => exact does_of_discarded (InPlace.updateNode_apply row t) rfl
  | softDeleteNode id => exact does_of_answer (InPlace.softDeleteNode_apply id t) rfl
  | hardDeleteNode id => exact does_of_answer (InPlace.hardDeleteNode_apply id t) rfl
  | insertConnection row => exact does_of_discarded (InPlace.insertConnection_apply row t) rfl
  | deleteConnection id => exact does_of_answer (InPlace.deleteConnection_apply id t) rfl
  | insertExecution row => exact does_of_discarded (o := t.insertExecution row) rfl rfl
  | updateExecution row => exact does_of_answer (InPlace.updateExecution_apply row t) rfl
  | _ => exact ⟨rfl, fun e t' h => by cases h⟩

end Tables

namespace Storage

theorem tables_of_refused_call {op : Tables.Operation} {s s' : Storage} {e : StoreError}
    (h : op.call s = .error e s') : s'.tables = s.tables := by
  -- a call asks first and writes last, and a write that is refused is not made
  cases op with
  | insertWorkflow row =>
    exact insert_eq_error (g := fun id t => t.insertWorkflow { row with id }) (discard_eq_error h)
  | updateWorkflow row now =>
    exact write_eq_error (f := fun t now => t.updateWorkflow row now) (discard_eq_error h)
  | getWorkflow id withDeleted => exact (looks_look _ _).reads.of_error (discard_eq_error h)
  | listWorkflows organization withDeleted =>
    exact (looks_look _ _).reads.of_error (discard_eq_error h)
  | findActive organization triggerType =>
    exact ((looks_look _ _).bind fun _ => looks_pure _).reads.of_error (discard_eq_error h)
  | softDeleteWorkflow id now =>
    exact write_eq_error (f := fun t now => t.softDeleteWorkflow id now) h
  | hardDeleteWorkflow id => exact write_eq_error (f := fun t _ => t.hardDeleteWorkflow id) h
  | insertNode row =>
    exact insert_eq_error (g := fun id t => t.insertNode { row with id }) (discard_eq_error h)
  | updateNode row => exact write_eq_error (f := fun t _ => t.updateNode row) (discard_eq_error h)
  | getNode id withDeleted => exact (looks_look _ _).reads.of_error (discard_eq_error h)
  | listNodes workflow withDeleted => exact (looks_look _ _).reads.of_error (discard_eq_error h)
  | softDeleteNode id => exact write_eq_error (f := fun t _ => t.softDeleteNode id) h
  | hardDeleteNode id => exact write_eq_error (f := fun t _ => t.hardDeleteNode id) h
  | insertConnection row =>
    exact insert_eq_error (g := fun id t => t.insertConnection { row with id }) (discard_eq_error h)
  | listConnections workflow => exact (looks_look _ _).reads.of_error (discard_eq_error h)
  | deleteConnection id => exact write_eq_error (f := fun t _ => t.deleteConnection id) h
  | insertExecution row => exact insertExecution_eq_error (discard_eq_error h)
  | updateExecution row => exact updateExecution_eq_error h
  | getExecution id => exact (looks_look _ _).reads.of_error (discard_eq_error h)
  | listExecutions workflow => exact (looks_look _ _).reads.of_error (discard_eq_error h)

end Storage

/-- Whatever authors do, and whatever is asked of a store, of its calls or of tables in place: if it
is refused, by whom and at whatever point, all tables are as they were.  Done in place, operations
leave the tables that `Tables.after` says. -/
theorem refusals_change_nothing :
    (∀ (op : Authoring.Operation) (s s' : Storage) e,
      op.run s = .error e s' → s'.tables = s.tables) ∧
    (∀ (op : Tables.Operation) (s s' : Storage) e,
      op.call s = .error e s' → s'.tables = s.tables) ∧
    ∀ (op : Tables.Operation) (t : Tables), leftBy (op.inPlace t) = t.after op ∧
      ∀ e t', op.inPlace t = .error e t' → t' = t := by
  refine ⟨fun op s s' e => Authoring.tables_of_refused, fun op s s' e =>
    Storage.tables_of_refused_call, fun op t => ?_⟩
  have hdoes := Tables.does_inPlace op t
  exact ⟨hdoes.leaves, hdoes.undone⟩

def severedStorage : Storage :=
  { Storage.fresh (.ofNames fun _ n => Uuid.ofHalves 0 n) default with
    tables := { Tables.empty with
      workflows := [.new Uuid.nil Uuid.nil Uuid.nil "severed" .eventCreated default]
      nodes := [.new (Uuid.ofHalves 0 1) Uuid.nil .trigger] }
    outages := [⟨.insertConnection, 0, .backend "down"⟩] }

/-- An author who connects the node of `severedStorage` is refused after the node has been found, by
the call that is to insert the connection, and the tables are as they were. -/
theorem severedStorage_unchanged :
    let workflow : Workflow := .new Uuid.nil Uuid.nil Uuid.nil "severed" .eventCreated default
    let op := Authoring.Operation.createConnection workflow
      ⟨none, some (Uuid.ofHalves 0 1), none, none⟩
    ∃ s', op.run severedStorage = .error (.store (.backend "down")) s' ∧ s'.outages = [] ∧
      s'.tables = severedStorage.tables := by
  intro workflow op
  have hrefused : op.run severedStorage =
      .error (.store (.backend "down")) { severedStorage with outages := [] } := rfl
  exact ⟨_, hrefused, rfl, refusals_change_nothing.1 _ _ _ _ hrefused⟩

end TriggerFlow
