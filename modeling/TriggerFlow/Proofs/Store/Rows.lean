import TriggerFlow.Proofs.Store.Access
/-!
# Rows come and go

For each operation on tables, and for each call of the store, what there was before it and what
there is after it if it succeeds (`insertNode_eq_ok` and so on).  `Tables.replaceFirst` changes a
row in place (`mem_replaceFirst`, `exists_replaceFirst`).
-/

namespace TriggerFlow.Tables

variable {α : Type} {t t' : Tables}

/-! ### A row in the place of another -/

theorem mem_replaceFirst {p : α → Bool} {row a : α} {as : List α}
    (h : a ∈ replaceFirst p row as) : a = row ∨ a ∈ as := by
  induction as with
  | nil => simp [replaceFirst] at h
  | cons b bs ih =>
    rw [replaceFirst] at h
    split at h
    · rcases List.mem_cons.mp h with rfl | h
      · exact .inl rfl
      · exact .inr (List.mem_cons_of_mem _ h)
    · rcases List.mem_cons.mp h with rfl | h
      · exact .inr (List.mem_cons_self ..)
      · exact (ih h).imp_right (List.mem_cons_of_mem _)

/-- If some row has the property `q`, some row has it after `replaceFirst p row`, provided that
`row` takes it over from what it replaces. -/
theorem exists_replaceFirst {p : α → Bool} {row : α} {as : List α} {q : α → Prop}
    (hrow : ∀ a ∈ as, p a = true → q a → q row) (h : ∃ a ∈ as, q a) :
    ∃ a ∈ replaceFirst p row as, q a := by
  induction as with
  | nil => simp at h
  | cons b bs ih =>
    obtain ⟨a, ha, hq⟩ := h
    rw [replaceFirst]
    split
    · next hp =>
      rcases List.mem_cons.mp ha with rfl | ha
      · exact ⟨row, List.mem_cons_self .., hrow a (List.mem_cons_self ..) hp hq⟩
      · exact ⟨a, List.mem_cons_of_mem _ ha, hq⟩
    · rcases List.mem_cons.mp ha with rfl | ha
      · exact ⟨a, List.mem_cons_self .., hq⟩
      · obtain ⟨a', ha', hq'⟩ := ih (fun a ha => hrow a (List.mem_cons_of_mem _ ha)) ⟨a, ha, hq⟩
        exact ⟨a', List.mem_cons_of_mem _ ha', hq'⟩

/-- Where `find? p` has found a row, it finds the one that `replaceFirst p` puts in its place. -/
theorem find?_replaceFirst {p : α → Bool} {row a : α} {as : List α} (h : as.find? p = some a)
    (hrow : p row = true) : (replaceFirst p row as).find? p = some row := by
  induction as with
  | nil => simp at h
  | cons b bs ih =>
    rw [replaceFirst]
    cases hb : p b with
    | true =>
      rw [if_pos rfl]
      exact List.find?_cons_of_pos hrow
    | false =>
      rw [if_neg Bool.false_ne_true, List.find?_cons_of_neg (by simp [hb])]
      rw [List.find?_cons_of_neg (by simp [hb])] at h
      exact ih h

theorem length_replaceFirst (p : α → Bool) (row : α) (as : List α) :
    (replaceFirst p row as).length = as.length := by
  induction as with
  | nil => rfl
  | cons b bs ih =>
    rw [replaceFirst]
    split
    · rfl
    · rw [List.length_cons, ih, List.length_cons]

/-- A row with a key of its own stands between rows with other keys. -/
theorem exists_split {κ : Type} {key : α → κ} {rows : List α} {row : α}
    (distinct : (rows.map key).Nodup) (hrow : row ∈ rows) :
    ∃ before after, rows = before ++ row :: after ∧ ∀ a ∈ before ++ after, key a ≠ key row := by
  obtain ⟨before, after, rfl⟩ := List.append_of_mem hrow
  refine ⟨before, after, rfl, ?_⟩
  -- the order does not matter to the keys, so the row may stand first
  have hmiddle : ((row :: (before ++ after)).map key).Nodup :=
    (List.perm_middle.map key).nodup_iff.mp distinct
  rw [List.map_cons, List.nodup_cons] at hmiddle
  intro a ha hkey
  exact hmiddle.1 (hkey ▸ List.mem_map_of_mem ha)

theorem replaceFirst_append_cons {p : α → Bool} {before after : List α} {a : α}
    (others : ∀ b ∈ before, p b = false) (ha : p a = true) (row : α) :
    replaceFirst p row (before ++ a :: after) = before ++ row :: after := by
  induction before with
  | nil => rw [List.nil_append, replaceFirst, if_pos ha, List.nil_append]
  | cons b bs ih =>
    obtain ⟨hb, hbs⟩ := List.forall_mem_cons.mp others
    rw [List.cons_append, replaceFirst, hb, if_neg Bool.false_ne_true, ih hbs, List.cons_append]

/-- Where keys are distinct, `replaceFirst` by a key is a `map`. -/
theorem replaceFirst_eq_map {κ : Type} [DecidableEq κ] {key : α → κ} {as : List α}
    (distinct : (as.map key).Nodup) (k : κ) (row : α) :
    replaceFirst (fun a => key a == k) row as = as.map fun a => if key a = k then row else a := by
  induction as with
  | nil => rfl
  | cons a as ih =>
    rw [List.map_cons, List.nodup_cons] at distinct
    rw [replaceFirst, List.map_cons]
    by_cases hkey : key a = k
    · -- no row after it has the key
      have hrest : (as.map fun a => if key a = k then row else a) = as := by
        refine (List.map_congr_left fun b hb => if_neg fun hb' => ?_).trans (List.map_id as)
        exact distinct.1 (List.mem_map.mpr ⟨b, hb, hb'.trans hkey.symm⟩)
      rw [if_pos (by simpa using hkey), if_pos hkey, hrest]
    · rw [if_neg (by simpa using hkey), if_neg hkey, ih distinct.2]

/-! ### Workflows -/

theorem insertWorkflow_eq_ok {row w : Workflow} (h : t.insertWorkflow row = .ok (w, t')) :
    w = row ∧ (∀ w' ∈ t.workflows, w'.id ≠ row.id) ∧
      t' = { t with workflows := t.workflows ++ [row] } := by
  unfold insertWorkflow at h
  split at h
  · simp at h
  · next hnew =>
    simp only [Except.ok.injEq, Prod.mk.injEq] at h
    refine ⟨h.1.symm, ?_, h.2.symm⟩
    simpa using hnew

theorem updateWorkflow_eq_ok {row w : Workflow} {now : Timestamp}
    (h : t.updateWorkflow row now = .ok (w, t')) :
    ∃ stored, t.getWorkflow row.id true = some stored ∧
      w = { row with updated := now, deleted := stored.deleted } ∧
      t' = { t with workflows := replaceFirst (fun w => w.id == row.id) w t.workflows } := by
  unfold updateWorkflow at h
  split at h
  · simp at h
  · next stored hfound =>
    simp only [Except.ok.injEq, Prod.mk.injEq] at h
    obtain ⟨rfl, rfl⟩ := h
    exact ⟨stored, hfound, rfl, rfl⟩

theorem softDeleteWorkflow_eq_ok {id : WorkflowId} {now : Timestamp} {u : Unit}
    (h : t.softDeleteWorkflow id now = .ok (u, t')) :
    ∃ stored, t.getWorkflow id true = some stored ∧
      t' = { t with
        workflows := replaceFirst (fun w => w.id == id)
          { stored with deleted := true, updated := now } t.workflows } := by
  unfold softDeleteWorkflow at h
  split at h
  · simp at h
  · next stored hfound =>
    simp only [Except.ok.injEq, Prod.mk.injEq] at h
    exact ⟨stored, hfound, h.2.symm⟩

theorem hardDeleteWorkflow_eq_ok {id : WorkflowId} {u : Unit}
    (h : t.hardDeleteWorkflow id = .ok (u, t')) :
    t' = { t with
      workflows := t.workflows.filter fun w => w.id != id
      nodes := t.nodes.filter fun n => n.workflow != id
      connections := t.connections.filter fun c => c.workflow != id } := by
  unfold hardDeleteWorkflow at h
  split at h
  · simp only [Except.ok.injEq, Prod.mk.injEq] at h
    exact h.2.symm
  · simp at h

/-- A workflow that is found is a row of that identifier, and not deleted unless those are asked
for. -/
theorem getWorkflow_eq_some {id : WorkflowId} {withDeleted : Bool} {w : Workflow}
    (h : t.getWorkflow id withDeleted = some w) :
    w ∈ t.workflows ∧ w.id = id ∧ (withDeleted = false → w.deleted = false) := by
  have hfound := List.find?_some h
  simp only [Bool.and_eq_true, beq_iff_eq, Bool.or_eq_true, Bool.not_eq_true'] at hfound
  refine ⟨List.mem_of_find?_eq_some h, hfound.1, ?_⟩
  rintro rfl
  exact hfound.2.resolve_left Bool.false_ne_true

/-- A row that replaces the one found under its identifier is found there. -/
theorem getWorkflow_replaceFirst {id : WorkflowId} {stored row : Workflow}
    (hfound : t.getWorkflow id true = some stored) (hrow : row.id = id) :
    Tables.getWorkflow { t with
      workflows := replaceFirst (fun w => w.id == id) row t.workflows } id true = some row := by
  simp only [getWorkflow, Bool.true_or, Bool.and_true] at hfound ⊢
  exact find?_replaceFirst hfound (by simp [hrow])

/-! ### Nodes -/

theorem insertNode_eq_ok {row n : Node} (h : t.insertNode row = .ok (n, t')) :
    n = row ∧ (∃ w ∈ t.workflows, w.id = row.workflow) ∧
      t' = { t with nodes := t.nodes ++ [row] } := by
  unfold insertNode at h
  split at h
  · next howner =>
    simp only [Except.ok.injEq, Prod.mk.injEq] at h
    refine ⟨h.1.symm, ?_, h.2.symm⟩
    simpa using howner
  · simp at h

theorem updateNode_eq_ok {row n : Node} (h : t.updateNode row = .ok (n, t')) :
    ∃ stored, t.getNode row.id true = some stored ∧ n = { row with deleted := stored.deleted } ∧
      t' = { t with nodes := replaceFirst (fun n => n.id == row.id) n t.nodes } := by
  unfold updateNode at h
  split at h
  · simp at h
  · next stored hfound =>
    simp only [Except.ok.injEq, Prod.mk.injEq] at h
    obtain ⟨rfl, rfl⟩ := h
    exact ⟨stored, hfound, rfl, rfl⟩

theorem softDeleteNode_eq_ok {id : NodeId} {u : Unit} (h : t.softDeleteNode id = .ok (u, t')) :
    ∃ stored, t.getNode id true = some stored ∧
      t' = { t with
        nodes := replaceFirst (fun n => n.id == id) { stored with deleted := true } t.nodes } := by
  unfold softDeleteNode at h
  split at h
  · simp at h
  · next stored hfound =>
    simp only [Except.ok.injEq, Prod.mk.injEq] at h
    exact ⟨stored, hfound, h.2.symm⟩

theorem hardDeleteNode_eq_ok {id : NodeId} {u : Unit} (h : t.hardDeleteNode id = .ok (u, t')) :
    t' = { t with
      nodes := t.nodes.filter fun n => n.id != id
      connections := t.connections.filter fun c => c.target != id && c.source != some id } := by
  unfold hardDeleteNode at h
  split at h
  · simp only [Except.ok.injEq, Prod.mk.injEq] at h
    exact h.2.symm
  · simp at h

/-- A node that is found is a row of that identifier, and not deleted unless those are asked for. -/
theorem getNode_eq_some {id : NodeId} {withDeleted : Bool} {n : Node}
    (h : t.getNode id withDeleted = some n) :
    n ∈ t.nodes ∧ n.id = id ∧ (withDeleted = false → n.deleted = false) := by
  have hfound := List.find?_some h
  simp only [Bool.and_eq_true, beq_iff_eq, Bool.or_eq_true, Bool.not_eq_true'] at hfound
  refine ⟨List.mem_of_find?_eq_some h, hfound.1, ?_⟩
  rintro rfl
  exact hfound.2.resolve_left Bool.false_ne_true

theorem getNode_replaceFirst {id : NodeId} {stored row : Node}
    (hfound : t.getNode id true = some stored) (hrow : row.id = id) :
    Tables.getNode { t with
      nodes := replaceFirst (fun n => n.id == id) row t.nodes } id true = some row := by
  simp only [getNode, Bool.true_or, Bool.and_true] at hfound ⊢
  exact find?_replaceFirst hfound (by simp [hrow])

/-! ### Connections -/

theorem insertConnection_eq_ok {row c : Connection} (h : t.insertConnection row = .ok (c, t')) :
    c = row ∧ (∃ w ∈ t.workflows, w.id = row.workflow) ∧
      t' = { t with connections := t.connections ++ [row] } := by
  unfold insertConnection at h
  split at h
  · next howner =>
    simp only [Except.ok.injEq, Prod.mk.injEq] at h
    refine ⟨h.1.symm, ?_, h.2.symm⟩
    simpa using howner
  · simp at h

theorem deleteConnection_eq_ok {id : ConnectionId} {u : Unit}
    (h : t.deleteConnection id = .ok (u, t')) :
    t' = { t with connections := t.connections.filter fun c => c.id != id } := by
  unfold deleteConnection at h
  split at h
  · simp only [Except.ok.injEq, Prod.mk.injEq] at h
    exact h.2.symm
  · simp at h

/-! ### Executions -/

/-- The row `stored` with the context and the outcome of `row`: what `updateExecution` makes of a
running row. -/
def written (stored row : Execution) : Execution :=
  { stored with
    context := row.context, status := row.status, error := row.error,
    completedAt := row.completedAt }

theorem id_of_getExecution {id : ExecutionId} {stored : Execution}
    (h : t.getExecution id = some stored) : stored.id = id := by
  have hfound := List.find?_some h
  simpa using hfound

theorem updateExecution_of_running {row stored : Execution}
    (hfound : t.getExecution row.id = some stored) (hrunning : stored.status = .running) :
    t.updateExecution row = .ok ((), { t with
      executions :=
        replaceFirst (fun e => e.id == row.id) (written stored row) t.executions }) := by
  have hid : stored.id = row.id := id_of_getExecution hfound
  unfold updateExecution
  rw [hfound]
  simp only [hrunning, ExecutionStatus.isTerminal, Bool.false_eq_true, if_false]
  rw [← hid]
  rfl

theorem eq_running_iff {status : ExecutionStatus} :
    status = .running ↔ status.isTerminal = false := by
  cases status <;> simp [ExecutionStatus.isTerminal]

/-- Where `updateExecution` succeeds, the stored row was running, and is `written` in its place. -/
theorem updateExecution_eq_ok {row : Execution} {u : Unit}
    (h : t.updateExecution row = .ok (u, t')) :
    ∃ stored, t.getExecution row.id = some stored ∧ stored.status = .running ∧
      t' = { t with
        executions :=
          replaceFirst (fun e => e.id == row.id) (written stored row) t.executions } := by
  cases hfound : t.getExecution row.id with
  | none => simp [updateExecution, hfound] at h
  | some stored =>
    cases hterminal : stored.status.isTerminal with
    | true => simp [updateExecution, hfound, hterminal] at h
    | false =>
      have hrunning := eq_running_iff.mpr hterminal
      rw [updateExecution_of_running hfound hrunning, Except.ok.injEq, Prod.mk.injEq] at h
      exact ⟨stored, rfl, hrunning, h.2.symm⟩

theorem getExecution_replaceFirst {id : ExecutionId} {stored row : Execution}
    (hfound : t.getExecution id = some stored) (hrow : row.id = id) :
    Tables.getExecution { t with
      executions := replaceFirst (fun e => e.id == id) row t.executions } id = some row :=
  find?_replaceFirst hfound (by simp [hrow])

end TriggerFlow.Tables

namespace TriggerFlow.Storage

variable {s s' : Storage}

/-! ### Calls -/

theorem insertWorkflow_eq_ok {row w : Workflow} (h : insertWorkflow row s = .ok w s') :
    w = { row with id := (s.ids.next .workflow).1 } ∧ (∀ w' ∈ s.tables.workflows, w'.id ≠ w.id) ∧
      s'.tables = { s.tables with workflows := s.tables.workflows ++ [w] } := by
  obtain ⟨rfl, hnew, htables⟩ := Tables.insertWorkflow_eq_ok
    (insert_eq_ok (g := fun id t => t.insertWorkflow { row with id }) h)
  exact ⟨rfl, hnew, htables⟩

theorem updateWorkflow_eq_ok {row w : Workflow} (h : updateWorkflow row s = .ok w s') :
    ∃ stored, s.tables.getWorkflow row.id true = some stored ∧
      w = { row with updated := s.clock, deleted := stored.deleted } ∧
      s'.tables = { s.tables with
        workflows := Tables.replaceFirst (fun w => w.id == row.id) w s.tables.workflows } :=
  Tables.updateWorkflow_eq_ok (write_eq_ok (f := fun t now => t.updateWorkflow row now) h)

theorem insertNode_eq_ok {row n : Node} (h : insertNode row s = .ok n s') :
    n = { row with id := (s.ids.next .node).1 } ∧
      (∃ w ∈ s.tables.workflows, w.id = row.workflow) ∧
      s'.tables = { s.tables with nodes := s.tables.nodes ++ [n] } := by
  obtain ⟨rfl, howner, htables⟩ := Tables.insertNode_eq_ok
    (insert_eq_ok (g := fun id t => t.insertNode { row with id }) h)
  exact ⟨rfl, howner, htables⟩

theorem updateNode_eq_ok {row n : Node} (h : updateNode row s = .ok n s') :
    ∃ stored, s.tables.getNode row.id true = some stored ∧
      n = { row with deleted := stored.deleted } ∧
      s'.tables = { s.tables with
        nodes := Tables.replaceFirst (fun n => n.id == row.id) n s.tables.nodes } :=
  Tables.updateNode_eq_ok (write_eq_ok (f := fun t _ => t.updateNode row) h)

theorem insertConnection_eq_ok {row c : Connection} (h : insertConnection row s = .ok c s') :
    c = { row with id := (s.ids.next .connection).1 } ∧
      (∃ w ∈ s.tables.workflows, w.id = row.workflow) ∧
      s'.tables = { s.tables with connections := s.tables.connections ++ [c] } := by
  obtain ⟨rfl, howner, htables⟩ := Tables.insertConnection_eq_ok
    (insert_eq_ok (g := fun id t => t.insertConnection { row with id }) h)
  exact ⟨rfl, howner, htables⟩

theorem updateExecution_eq_ok {row : Execution} (h : updateExecution row s = .ok () s') :
    ∃ stored, s.tables.getExecution row.id = some stored ∧ stored.status = .running ∧
      s'.tables = { s.tables with
        executions := Tables.replaceFirst (fun e => e.id == row.id) (Tables.written stored row)
          s.tables.executions } :=
  Tables.updateExecution_eq_ok (write_eq_ok (f := fun t _ => t.updateExecution row) h)

theorem updateExecution_eq_error {row : Execution} {e : StoreError}
    (h : updateExecution row s = .error e s') : s'.tables = s.tables :=
  write_eq_error (f := fun t _ => t.updateExecution row) h

/-- Where `updateExecution row` succeeds over `stored`, that was running, and `written stored row`
is found afterwards. -/
theorem updateExecution_over {row stored : Execution} (h : updateExecution row s = .ok () s')
    (found : s.tables.getExecution row.id = some stored) :
    stored.status = .running ∧
      s'.tables.getExecution row.id = some (Tables.written stored row) := by
  obtain ⟨stored', hfound, hrunning, htables⟩ := updateExecution_eq_ok h
  obtain rfl := Option.some.inj (found.symm.trans hfound)
  have hid : stored.id = row.id := Tables.id_of_getExecution hfound
  have hid : (Tables.written stored row).id = row.id := hid
  refine ⟨hrunning, ?_⟩
  rw [htables]
  exact Tables.getExecution_replaceFirst hfound hid

/-- A row that the store takes is found in it, `written` over some row. -/
theorem getExecution_of_updateExecution {row : Execution}
    (h : updateExecution row s = .ok () s') :
    ∃ stored, s'.tables.getExecution row.id = some (Tables.written stored row) := by
  obtain ⟨stored, hfound, -, -⟩ := updateExecution_eq_ok h
  exact ⟨stored, (updateExecution_over h hfound).2⟩

end TriggerFlow.Storage
