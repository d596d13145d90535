import TriggerFlow.Proofs.Store.Finality
/-!
# Tombstones in tables

Workflows and nodes that are deleted stay in the tables as tombstones.  What an operation may make
of the rows of either table is said once, for both of them (`Alters`): a row may give way to another
that takes over its identifier and its mark as a tombstone, a row may be added, and rows may be
removed.  So a tombstone stays one until it is removed (`Alters.remains`), and whoever has its
identifier is a tombstone too, as long as that identifier is given to no new row (`Alters.buried`).
-/

namespace TriggerFlow.Tables

/-! ### Rows that may be tombstones -/

section Rows

variable {α : Type} {key : α → Uuid} {dead : α → Bool} {added : Uuid → Prop} {removed : α → Prop}
  {as as' : List α} {row : α} {id : Uuid}

/-- What an operation may make of the rows `as`, when `added` says under which identifiers it may
add a row and `removed` which rows it may remove. -/
inductive Alters (key : α → Uuid) (dead : α → Bool) (added : Uuid → Prop) (removed : α → Prop)
    (as : List α) : List α → Prop
  | same : Alters key dead added removed as as
  /-- A row gives way to another of its identifier, which is a tombstone if the first one is. -/
  | replace {stored row : α} {id : Uuid} (found : stored ∈ as) (stored_id : key stored = id)
      (row_id : key row = id) (mark : dead stored = true → dead row = true) :
      Alters key dead added removed as (replaceFirst (fun a => key a == id) row as)
  | add {row : α} (ok : added (key row)) : Alters key dead added removed as (as ++ [row])
  | remove {p : α → Bool} (ok : ∀ a ∈ as, p a = false → removed a) :
      Alters key dead added removed as (as.filter p)

theorem map_replaceFirst (row_id : key row = id) (as : List α) :
    (replaceFirst (fun a => key a == id) row as).map key = as.map key := by
  induction as with
  | nil => rfl
  | cons b bs ih =>
    rw [replaceFirst]
    by_cases hb : key b = id
    · rw [if_pos (beq_iff_eq.mpr hb), List.map_cons, List.map_cons, row_id, hb]
    · rw [if_neg (by simpa using hb), List.map_cons, List.map_cons, ih]

/-- Where all rows of an identifier are tombstones, they remain the only ones, if no row is added
under it. -/
theorem Alters.buried (h : Alters key dead added removed as as') (unused : ¬ added id)
    (buried : ∀ a ∈ as, key a = id → dead a = true) : ∀ a ∈ as', key a = id → dead a = true := by
  cases h with
  | same => exact buried
  | replace found stored_id row_id mark =>
    intro a ha hkey
    rcases mem_replaceFirst ha with rfl | ha
    · -- the row that gave way has the identifier as well
      exact mark (buried _ found (stored_id.trans (row_id.symm.trans hkey)))
    · exact buried a ha hkey
  | add ok =>
    intro a ha hkey
    rcases List.mem_append.mp ha with ha | ha
    · exact buried a ha hkey
    · obtain rfl := List.mem_singleton.mp ha
      rw [hkey] at ok
      exact absurd ok unused
  | remove => exact fun a ha => buried a (List.mem_filter.mp ha).1

/-- An identifier has a row as long as none of its rows may be removed. -/
theorem Alters.remains (h : Alters key dead added removed as as')
    (kept : ∀ a ∈ as, key a = id → ¬ removed a) (there : ∃ a ∈ as, key a = id) :
    ∃ a ∈ as', key a = id := by
  cases h with
  | same => exact there
  | replace found stored_id row_id mark =>
    refine exists_replaceFirst ?_ there
    intro a _ hp hkey
    have hp := beq_iff_eq.mp hp
    rw [row_id, ← hp, hkey]
  | add ok =>
    obtain ⟨a, ha, hkey⟩ := there
    exact ⟨a, List.mem_append_left _ ha, hkey⟩
  | @remove p ok =>
    obtain ⟨a, ha, hkey⟩ := there
    cases hp : p a with
    | false => exact absurd (ok a ha hp) (kept a ha hkey)
    | true => exact ⟨a, List.mem_filter.mpr ⟨ha, hp⟩, hkey⟩

/-- Where identifiers are distinct, replacing the row of one by a tombstone leaves no live row under
it. -/
theorem buried_replaceFirst (distinct : (as.map key).Nodup) (hdead : dead row = true) :
    ∀ a ∈ replaceFirst (fun a => key a == id) row as, key a = id → dead a = true := by
  induction as with
  | nil => simp [replaceFirst]
  | cons b bs ih =>
    rw [List.map_cons, List.nodup_cons] at distinct
    obtain ⟨hb, hbs⟩ := distinct
    rw [replaceFirst]
    intro a ha hkey
    by_cases hfirst : key b = id
    · rw [if_pos (beq_iff_eq.mpr hfirst)] at ha
      rcases List.mem_cons.mp ha with rfl | ha
      · exact hdead
      · -- a second row of the identifier
        rw [hfirst, ← hkey] at hb
        exact absurd (List.mem_map_of_mem ha) hb
    · rw [if_neg (by simpa using hfirst)] at ha
      rcases List.mem_cons.mp ha with rfl | ha
      · exact absurd hkey hfirst
      · exact ih hbs a ha hkey

end Rows

/-- Rows under new identifiers leave no two that share one. -/
theorem Alters.distinct (h : Alters key dead added removed as as')
    (new : ∀ id, added id → ∀ a ∈ as, key a ≠ id) (distinct : (as.map key).Nodup) :
    (as'.map key).Nodup := by
  cases h with
  | same => exact distinct
  | replace found stored_id row_id mark =>
    rw [map_replaceFirst row_id]
    exact distinct
  | @add row ok =>
    rw [List.map_append, List.nodup_append]
    refine ⟨distinct, List.pairwise_singleton _ _, ?_⟩
    rintro x hx y hy rfl
    obtain ⟨a, ha, hkey⟩ := List.mem_map.mp hx
    exact new _ ok a ha (hkey.trans (List.mem_singleton.mp hy))
  | remove => exact distinct.sublist (List.filter_sublist.map key)

/-! ### Operations -/

/-- Neither two workflows nor two nodes share an identifier. -/
structure Distinct (t : Tables) : Prop where
  workflows : (t.workflows.map Workflow.id).Nodup
  nodes : (t.nodes.map Node.id).Nodup

/-- The kind and the identifier of a workflow or a node that an operation adds. -/
def Operation.adds? : Operation → Option (RowKind × Uuid)
  | insertWorkflow row => some (.workflow, row.id)
  | insertNode row => some (.node, row.id)
  | _ => none

/-- Workflows and nodes have altered (`Alters`) from `t` to `t'`, when `added` says which
identifiers new rows may get, and `removal` which operations remove some. -/
structure Changes (added : RowKind → Uuid → Prop) (removal : Operation → Prop) (t t' : Tables) :
    Prop where
  workflows : Alters Workflow.id Workflow.deleted
    (fun id => added .workflow id ∧ ∀ w ∈ t.workflows, w.id ≠ id)
    (fun w => removal (.hardDeleteWorkflow w.id)) t.workflows t'.workflows
  nodes : Alters Node.id Node.deleted (added .node)
    (fun n => removal (.hardDeleteNode n.id) ∨ removal (.hardDeleteWorkflow n.workflow))
    t.nodes t'.nodes

namespace Changes

variable {added : RowKind → Uuid → Prop} {removal : Operation → Prop} {t t' : Tables}

/-- Connections and executions may become whatever they will. -/
theorem of_eq (workflows : t'.workflows = t.workflows) (nodes : t'.nodes = t.nodes) :
    Changes added removal t t' := by
  refine ⟨?_, ?_⟩
  · rw [workflows]
    exact .same
  · rw [nodes]
    exact .same

/-- Replacing a row of a workflow is one of the `Changes`. -/
theorem replaceWorkflow {id : WorkflowId} {row stored : Workflow}
    (found : t.getWorkflow id true = some stored) (row_id : row.id = id)
    (mark : stored.deleted = true → row.deleted = true) :
    Changes added removal t
      { t with workflows := replaceFirst (fun w => w.id == id) row t.workflows } := by
  obtain ⟨hstored, hid, -⟩ := getWorkflow_eq_some found
  exact ⟨.replace hstored hid row_id mark, .same⟩

/-- Replacing a row of a node is one of the `Changes`. -/
theorem replaceNode {id : NodeId} {row stored : Node} (found : t.getNode id true = some stored)
    (row_id : row.id = id) (mark : stored.deleted = true → row.deleted = true) :
    Changes added removal t
      { t with nodes := replaceFirst (fun n => n.id == id) row t.nodes } := by
  obtain ⟨hstored, hid, -⟩ := getNode_eq_some found
  exact ⟨.same, .replace hstored hid row_id mark⟩

/-- Removing a workflow with its nodes is one of the `Changes`, if `removal` allows for it. -/
theorem removeWorkflow {id : WorkflowId} (ok : removal (.hardDeleteWorkflow id))
    (connections : List Connection) :
    Changes added removal t
      { t with
        workflows := t.workflows.filter fun w => w.id != id
        nodes := t.nodes.filter fun n => n.workflow != id
        connections } := by
  refine ⟨.remove fun w _ hw => ?_, .remove fun n _ hn => .inr ?_⟩
  · obtain rfl : w.id = id := by simpa using hw
    exact ok
  · obtain rfl : n.workflow = id := by simpa using hn
    exact ok

/-- Removing a node is one of the `Changes`, if `removal` allows for it. -/
theorem removeNode {id : NodeId} (ok : removal (.hardDeleteNode id))
    (connections : List Connection) :
    Changes added removal t
      { t with nodes := t.nodes.filter fun n => n.id != id, connections } := by
  refine ⟨.same, .remove fun n _ hn => .inl ?_⟩
  obtain rfl : n.id = id := by simpa using hn
  exact ok

/-- What holds of the changes of an operation that succeeds holds of `resulting` in any case. -/
theorem resulting {α : Type} {o : Outcome α}
    (h : ∀ a t', o = .ok (a, t') → Changes added removal t t') :
    Changes added removal t (t.resulting o) := by
  cases o with
  | error e => exact of_eq rfl rfl
  | ok answer => exact h _ _ rfl

end Changes

theorem rows_after_updateExecution (t : Tables) (row : Execution) :
    (t.after (.updateExecution row)).workflows = t.workflows ∧
      (t.after (.updateExecution row)).nodes = t.nodes := by
  unfold after
  dsimp only
  cases h : t.updateExecution row with
  | error e => exact ⟨rfl, rfl⟩
  | ok answer =>
    obtain ⟨stored, -, -, htables⟩ := updateExecution_eq_ok h
    rw [resulting, htables]
    exact ⟨rfl, rfl⟩

/-- An operation makes the `Changes` that its own `adds?` and its own removal account for. -/
theorem changes_after (t : Tables) (op : Operation) :
    Changes (fun kind id => op.adds? = some (kind, id)) (fun removal => removal = op) t
      (t.after op) := by
  -- no update takes a mark of deletion away: it is that of the stored row
  cases op with
  | insertWorkflow row =>
    refine .resulting fun w t' h => ?_
    obtain ⟨-, hnew, rfl⟩ := insertWorkflow_eq_ok h
    exact ⟨.add ⟨rfl, hnew⟩, .same⟩
  | updateWorkflow row now =>
    refine .resulting fun w t' h => ?_
    obtain ⟨stored, hfound, rfl, rfl⟩ := updateWorkflow_eq_ok h
    exact .replaceWorkflow hfound rfl fun hmark => hmark
  | softDeleteWorkflow id now =>
    refine .resulting fun u t' h => ?_
    obtain ⟨stored, hfound, rfl⟩ := softDeleteWorkflow_eq_ok h
    obtain ⟨-, hid, -⟩ := getWorkflow_eq_some hfound
    exact .replaceWorkflow hfound hid fun _ => rfl
  | hardDeleteWorkflow id =>
    refine .resulting fun u t' h => ?_
    rw [hardDeleteWorkflow_eq_ok h]
    refine .removeWorkflow ?_ _
    rfl
  | insertNode row =>
    refine .resulting fun n t' h => ?_
    obtain ⟨-, -, rfl⟩ := insertNode_eq_ok h
    exact ⟨.same, .add rfl⟩
  | updateNode row =>
    refine .resulting fun n t' h => ?_
    obtain ⟨stored, hfound, rfl, rfl⟩ := updateNode_eq_ok h
    exact .replaceNode hfound rfl fun hmark => hmark
  | softDeleteNode id =>
    refine .resulting fun u t' h => ?_
    obtain ⟨stored, hfound, rfl⟩ := softDeleteNode_eq_ok h
    obtain ⟨-, hid, -⟩ := getNode_eq_some hfound
    exact .replaceNode hfound hid fun _ => rfl
  | hardDeleteNode id =>
    refine .resulting fun u t' h => ?_
    rw [hardDeleteNode_eq_ok h]
    refine .removeNode ?_ _
    rfl
  | insertConnection row =>
    refine .resulting fun c t' h => ?_
    obtain ⟨-, -, rfl⟩ := insertConnection_eq_ok h
    exact .of_eq rfl rfl
  | deleteConnection id =>
    refine .resulting fun u t' h => ?_
    rw [deleteConnection_eq_ok h]
    exact .of_eq rfl rfl
  | insertExecution row => exact .of_eq rfl rfl
  | updateExecution row =>
    obtain ⟨hworkflows, hnodes⟩ := rows_after_updateExecution t row
    exact .of_eq hworkflows hnodes
  | _ => exact .of_eq rfl rfl

/-! ### What is seen of tombstones -/

/-- Every row of a workflow under `id` has `deleted = true`. -/
def BuriedWorkflow (t : Tables) (id : WorkflowId) : Prop :=
  ∀ w ∈ t.workflows, w.id = id → w.deleted = true

/-- Every row of a node under `id` has `deleted = true`. -/
def BuriedNode (t : Tables) (id : NodeId) : Prop := ∀ n ∈ t.nodes, n.id = id → n.deleted = true

namespace Changes

variable {added : RowKind → Uuid → Prop} {removal : Operation → Prop} {t t' : Tables} {id : Uuid}

theorem buriedWorkflow (unused : ¬ added .workflow id) (h : Changes added removal t t')
    (buried : t.BuriedWorkflow id) : t'.BuriedWorkflow id :=
  h.workflows.buried (fun hadded => unused hadded.1) buried

theorem buriedNode (unused : ¬ added .node id) (h : Changes added removal t t')
    (buried : t.BuriedNode id) : t'.BuriedNode id := h.nodes.buried unused buried

theorem distinct (new : ∀ id, added .node id → ∀ n ∈ t.nodes, n.id ≠ id)
    (h : Changes added removal t t') (distinct : t.Distinct) : t'.Distinct :=
  ⟨h.workflows.distinct (fun _ hadded => hadded.2) distinct.workflows,
    h.nodes.distinct new distinct.nodes⟩

/-- A workflow keeps a row through `Changes` without its `hardDeleteWorkflow`. -/
theorem workflow_remains (kept : ¬ removal (.hardDeleteWorkflow id))
    (h : Changes added removal t t') (there : ∃ w ∈ t.workflows, w.id = id) :
    ∃ w ∈ t'.workflows, w.id = id := by
  refine h.workflows.remains ?_ there
  rintro w - rfl
  exact kept

/-- A node keeps a row through `Changes` without its `hardDeleteNode` and the `hardDeleteWorkflow`
of its workflow. -/
theorem node_remains
    (kept : ¬ removal (.hardDeleteNode id) ∧
      ∀ n ∈ t.nodes, n.id = id → ¬ removal (.hardDeleteWorkflow n.workflow))
    (h : Changes added removal t t') (there : ∃ n ∈ t.nodes, n.id = id) :
    ∃ n ∈ t'.nodes, n.id = id := by
  refine h.nodes.remains ?_ there
  rintro n hn rfl (hnode | hworkflow)
  · exact kept.1 hnode
  · exact kept.2 n hn rfl hworkflow

end Changes

section Seen

variable {t : Tables} {id : Uuid}

/-- If an identifier is buried and has a row, `getWorkflow` finds a deleted one on demand. -/
theorem BuriedWorkflow.tombstone (buried : t.BuriedWorkflow id)
    (there : ∃ w ∈ t.workflows, w.id = id) :
    ∃ row, t.getWorkflow id true = some row ∧ row.deleted = true := by
  obtain ⟨w, hw, hid⟩ := there
  obtain ⟨row, hrow⟩ : ∃ row, t.getWorkflow id true = some row := by
    rw [← Option.isSome_iff_exists, Tables.getWorkflow, List.find?_isSome]
    exact ⟨w, hw, by simp [hid]⟩
  obtain ⟨hmem, hrow_id, -⟩ := getWorkflow_eq_some hrow
  exact ⟨row, hrow, buried row hmem hrow_id⟩

theorem BuriedNode.tombstone (buried : t.BuriedNode id) (there : ∃ n ∈ t.nodes, n.id = id) :
    ∃ row, t.getNode id true = some row ∧ row.deleted = true := by
  obtain ⟨n, hn, hid⟩ := there
  obtain ⟨row, hrow⟩ : ∃ row, t.getNode id true = some row := by
    rw [← Option.isSome_iff_exists, Tables.getNode, List.find?_isSome]
    exact ⟨n, hn, by simp [hid]⟩
  obtain ⟨hmem, hrow_id, -⟩ := getNode_eq_some hrow
  exact ⟨row, hrow, buried row hmem hrow_id⟩

theorem BuriedWorkflow.ne_of_live (buried : t.BuriedWorkflow id) {w : Workflow}
    (hw : w ∈ t.workflows) (live : w.deleted = false) : w.id ≠ id := by
  intro hid
  have hdeleted := buried w hw hid
  rw [live] at hdeleted
  exact Bool.noConfusion hdeleted

theorem BuriedWorkflow.getWorkflow (buried : t.BuriedWorkflow id) :
    t.getWorkflow id false = none := by
  rw [Tables.getWorkflow, List.find?_eq_none]
  intro w hw hfound
  simp only [Bool.false_or, Bool.and_eq_true, beq_iff_eq, Bool.not_eq_true'] at hfound
  exact buried.ne_of_live hw hfound.2 hfound.1

theorem BuriedWorkflow.listWorkflows (buried : t.BuriedWorkflow id)
    (organization : OrganizationId) : ∀ w ∈ t.listWorkflows organization false, w.id ≠ id := by
  intro w hw
  obtain ⟨hmem, hlisted⟩ := List.mem_filter.mp hw
  simp only [Bool.false_or, Bool.and_eq_true, Bool.not_eq_true'] at hlisted
  exact buried.ne_of_live hmem hlisted.2

theorem BuriedNode.ne_of_live (buried : t.BuriedNode id) {n : Node} (hn : n ∈ t.nodes)
    (live : n.deleted = false) : n.id ≠ id := by
  intro hid
  have hdeleted := buried n hn hid
  rw [live] at hdeleted
  exact Bool.noConfusion hdeleted

theorem BuriedNode.getNode (buried : t.BuriedNode id) : t.getNode id false = none := by
  cases hfound : t.getNode id false with
  | none => rfl
  | some n =>
    obtain ⟨hmem, hid, hlive⟩ := getNode_eq_some hfound
    exact absurd hid (buried.ne_of_live hmem (hlive rfl))

theorem BuriedNode.listNodes (buried : t.BuriedNode id) (workflow : WorkflowId) :
    ∀ n ∈ t.listNodes workflow false, n.id ≠ id := by
  intro n hn
  obtain ⟨hmem, hlisted⟩ := List.mem_filter.mp hn
  simp only [Bool.false_or, Bool.and_eq_true, Bool.not_eq_true'] at hlisted
  exact buried.ne_of_live hmem hlisted.2

end Seen

end TriggerFlow.Tables
