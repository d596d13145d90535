import TriggerFlow.Proofs.Store.Identifiers
/-!
# Rows stand in the order of their insertion

An operation on tables adds one row at the end, changes the row it names where it stands
(`Changed`), or removes the row it names (`Removed`) with the rows that belong to it; all other rows
stay as they are and where they are (`effect_of_perform`).  So at any time the rows of a table stand
in the order in which they have been inserted (`inOrder_ids`), and this is the order in which they
are listed: every listing is its table filtered (`listsRows`).
-/

namespace TriggerFlow.Tables

variable {α : Type} {key : α → Uuid} {rows rows' : List α} {row : α} {id : Uuid} {t t' : Tables}
  {kind : RowKind} {op : Operation} {ops : List Operation} {n : Nat}

/-! ### The row of an identifier -/

/-- The only row with `key row = id` becomes `change row` where it stands. -/
def Changed (key : α → Uuid) (id : Uuid) (change : α → α) (rows rows' : List α) : Prop :=
  ∃ before row after, rows = before ++ row :: after ∧ key row = id ∧
    (∀ a ∈ before ++ after, key a ≠ id) ∧ rows' = before ++ change row :: after

/-- The only row with `key row = id` is gone, and the others are as they were. -/
def Removed (key : α → Uuid) (id : Uuid) (rows rows' : List α) : Prop :=
  ∃ before row after, rows = before ++ row :: after ∧ key row = id ∧
    (∀ a ∈ before ++ after, key a ≠ id) ∧ rows' = before ++ after

theorem changed_replaceFirst (distinct : (rows.map key).Nodup) (hrow : row ∈ rows)
    (row_id : key row = id) (change : α → α) :
    Changed key id change rows (replaceFirst (fun a => key a == id) (change row) rows) := by
  obtain ⟨before, after, rfl, others⟩ := exists_split distinct hrow
  rw [row_id] at others
  refine ⟨before, row, after, rfl, row_id, others, replaceFirst_append_cons ?_ ?_ _⟩
  · intro b hb
    simpa using others b (List.mem_append_left _ hb)
  · simpa using row_id

theorem removed_filter (distinct : (rows.map key).Nodup) (there : ∃ a ∈ rows, key a = id) :
    Removed key id rows (rows.filter fun a => key a != id) := by
  obtain ⟨row, hrow, row_id⟩ := there
  obtain ⟨before, after, rfl, others⟩ := exists_split distinct hrow
  rw [row_id] at others
  refine ⟨before, row, after, rfl, row_id, others, ?_⟩
  rw [List.filter_append, List.filter_cons_of_neg (by simp [row_id]), ← List.filter_append,
    List.filter_eq_self]
  intro a ha
  simpa using others a ha

/-! ### What an operation does -/

/-- No two rows of a table share an identifier. -/
def Identified (t : Tables) : Prop := ∀ kind, (t.ids kind).Nodup

/-- What an operation that succeeds makes of the tables `t`, for each of the operations. -/
def Effect (t : Tables) : Operation → Tables → Prop
  | .insertWorkflow row, t' => t' = { t with workflows := t.workflows ++ [row] }
  | .updateWorkflow row now, t' =>
    ∃ rows, Changed Workflow.id row.id
        (fun stored => { row with updated := now, deleted := stored.deleted }) t.workflows rows ∧
      t' = { t with workflows := rows }
  | .softDeleteWorkflow id now, t' =>
    ∃ rows, Changed Workflow.id id (fun stored => { stored with deleted := true, updated := now })
        t.workflows rows ∧
      t' = { t with workflows := rows }
  | .hardDeleteWorkflow id, t' =>
    ∃ rows, Removed Workflow.id id t.workflows rows ∧
      t' = { t with
        workflows := rows
        nodes := t.nodes.filter fun n => n.workflow != id
        connections := t.connections.filter fun c => c.workflow != id }
  | .insertNode row, t' => t' = { t with nodes := t.nodes ++ [row] }
  | .updateNode row, t' =>
    ∃ rows, Changed Node.id row.id (fun stored => { row with deleted := stored.deleted })
        t.nodes rows ∧
      t' = { t with nodes := rows }
  | .softDeleteNode id, t' =>
    ∃ rows, Changed Node.id id (fun stored => { stored with deleted := true }) t.nodes rows ∧
      t' = { t with nodes := rows }
  | .hardDeleteNode id, t' =>
    ∃ rows, Removed Node.id id t.nodes rows ∧
      t' = { t with
        nodes := rows
        connections := t.connections.filter fun c => c.target != id && c.source != some id }
  | .insertConnection row, t' => t' = { t with connections := t.connections ++ [row] }
  | .deleteConnection id, t' =>
    ∃ rows, Removed Connection.id id t.connections rows ∧ t' = { t with connections := rows }
  | .insertExecution row, t' => t' = { t with executions := t.executions ++ [row] }
  | .updateExecution row, t' =>
    ∃ rows, Changed Execution.id row.id (fun stored => written stored row) t.executions rows ∧
      t' = { t with executions := rows }
  | .getWorkflow .., t' | .listWorkflows .., t' | .findActive .., t' | .getNode .., t'
  | .listNodes .., t' | .listConnections .., t' | .getExecution .., t' | .listExecutions .., t' =>
    t' = t

theorem exists_of_ite_eq_ok {answer answer' : Unit × Tables} {e : StoreError}
    (h : (if rows.any fun a => key a == id then .ok answer else .error e : Outcome Unit) =
      .ok answer') : ∃ a ∈ rows, key a = id := by
  split at h
  · next hany => simpa using hany
  · cases h

theorem effect_of_perform (identified : t.Identified) (h : t.perform op = .ok t') :
    t.Effect op t' := by
  cases op with
  | insertWorkflow row =>
    obtain ⟨_, h⟩ := exists_of_map_eq_ok h
    exact (insertWorkflow_eq_ok h).2.2
  | updateWorkflow row now =>
    obtain ⟨_, h⟩ := exists_of_map_eq_ok h
    obtain ⟨stored, hfound, rfl, rfl⟩ := updateWorkflow_eq_ok h
    obtain ⟨hmem, hid, -⟩ := getWorkflow_eq_some hfound
    exact ⟨_, changed_replaceFirst (identified .workflow) hmem hid
      fun stored => { row with updated := now, deleted := stored.deleted }, rfl⟩
  | softDeleteWorkflow id now =>
    obtain ⟨_, h⟩ := exists_of_map_eq_ok h
    obtain ⟨stored, hfound, rfl⟩ := softDeleteWorkflow_eq_ok h
    obtain ⟨hmem, hid, -⟩ := getWorkflow_eq_some hfound
    exact ⟨_, changed_replaceFirst (identified .workflow) hmem hid
      fun stored => { stored with deleted := true, updated := now }, rfl⟩
  | hardDeleteWorkflow id =>
    obtain ⟨_, h⟩ := exists_of_map_eq_ok h
    exact ⟨_, removed_filter (identified .workflow) (exists_of_ite_eq_ok h),
      hardDeleteWorkflow_eq_ok h⟩
  | insertNode row =>
    obtain ⟨_, h⟩ := exists_of_map_eq_ok h
    exact (insertNode_eq_ok h).2.2
  | updateNode row =>
    obtain ⟨_, h⟩ := exists_of_map_eq_ok h
    obtain ⟨stored, hfound, rfl, rfl⟩ := updateNode_eq_ok h
    obtain ⟨hmem, hid, -⟩ := getNode_eq_some hfound
    exact ⟨_, changed_replaceFirst (identified .node) hmem hid
      fun stored => { row with deleted := stored.deleted }, rfl⟩
  | softDeleteNode id =>
    obtain ⟨_, h⟩ := exists_of_map_eq_ok h
    obtain ⟨stored, hfound, rfl⟩ := softDeleteNode_eq_ok h
    obtain ⟨hmem, hid, -⟩ := getNode_eq_some hfound
    exact ⟨_, changed_replaceFirst (identified .node) hmem hid
      fun stored => { stored with deleted := true }, rfl⟩
  | hardDeleteNode id =>
    obtain ⟨_, h⟩ := exists_of_map_eq_ok h
    exact ⟨_, removed_filter (identified .node) (exists_of_ite_eq_ok h), hardDeleteNode_eq_ok h⟩
  | insertConnection row =>
    obtain ⟨_, h⟩ := exists_of_map_eq_ok h
    exact (insertConnection_eq_ok h).2.2
  | deleteConnection id =>
    obtain ⟨_, h⟩ := exists_of_map_eq_ok h
    exact ⟨_, removed_filter (identified .connection) (exists_of_ite_eq_ok h),
      deleteConnection_eq_ok h⟩
  | insertExecution row => exact (Except.ok.inj h).symm
  | updateExecution row =>
    obtain ⟨_, h⟩ := exists_of_map_eq_ok h
    obtain ⟨stored, hfound, -, rfl⟩ := updateExecution_eq_ok h
    exact ⟨_, changed_replaceFirst (identified .execution) (List.mem_of_find?_eq_some hfound)
      (id_of_getExecution hfound) fun stored => written stored row, rfl⟩
  | _ => exact (Except.ok.inj h).symm

/-! ### The order of insertion -/

/-- Operation `n` of `ops` adds a row under `id`, and the table has had a row under it ever since.
-/
def InsertedAt (ops : List Operation) (kind : RowKind) (n : Nat) (id : Uuid) : Prop :=
  ∃ before op after, ops = before ++ op :: after ∧ before.length = n ∧
    (empty.afterAll before).Adds kind op id ∧
    ∀ since, since <+: after → id ∈ (empty.afterAll (before ++ op :: since)).ids kind

/-- The identifiers `ids` can be stamped with places in `ops` at which rows of them are
`InsertedAt`, and the places ascend. -/
def InOrder (ops : List Operation) (kind : RowKind) (ids : List Uuid) : Prop :=
  ∃ stamped : List (Nat × Uuid), stamped.map Prod.snd = ids ∧
    stamped.Pairwise (fun s s' => s.1 < s'.1) ∧ ∀ s ∈ stamped, InsertedAt ops kind s.1 s.2

theorem InsertedAt.lt_length (h : InsertedAt ops kind n id) : n < ops.length := by
  obtain ⟨before, op, after, rfl, rfl, -, -⟩ := h
  simp

/-- What is `InsertedAt` a place is so after one more operation, unless that removes it. -/
theorem InsertedAt.concat (h : InsertedAt ops kind n id)
    (kept : id ∈ (empty.afterAll (ops ++ [op])).ids kind) : InsertedAt (ops ++ [op]) kind n id := by
  obtain ⟨before, op', after, rfl, rfl, hadds, hsince⟩ := h
  refine ⟨before, op', after ++ [op], by simp, rfl, hadds, fun since hprefix => ?_⟩
  rcases List.prefix_concat_iff.mp hprefix with rfl | hprefix
  · simpa using kept
  · exact hsince since hprefix

theorem insertedAt_length (hadds : (empty.afterAll ops).Adds kind op id)
    (kept : id ∈ (empty.afterAll (ops ++ [op])).ids kind) :
    InsertedAt (ops ++ [op]) kind ops.length id := by
  refine ⟨ops, op, [], rfl, rfl, hadds, fun since hprefix => ?_⟩
  obtain rfl := List.prefix_nil.mp hprefix
  exact kept

theorem InOrder.sublist {ids ids' : List Uuid} (h : InOrder ops kind ids)
    (hsub : ids'.Sublist ids) : InOrder ops kind ids' := by
  obtain ⟨stamped, rfl, ascending, inserted⟩ := h
  obtain ⟨stamped', hstamped, rfl⟩ := List.sublist_map_iff.mp hsub
  exact ⟨stamped', rfl, ascending.sublist hstamped, fun s hs => inserted s (hstamped.subset hs)⟩

theorem InOrder.concat {ids : List Uuid} (h : InOrder ops kind ids)
    (kept : ∀ id ∈ ids, id ∈ (empty.afterAll (ops ++ [op])).ids kind) :
    InOrder (ops ++ [op]) kind ids := by
  obtain ⟨stamped, rfl, ascending, inserted⟩ := h
  exact ⟨stamped, rfl, ascending, fun s hs =>
    (inserted s hs).concat (kept s.2 (List.mem_map_of_mem hs))⟩

/-- What an operation inserts comes after all that has been inserted before. -/
theorem InOrder.concat_inserted {ids : List Uuid} (h : InOrder ops kind ids)
    (hadds : (empty.afterAll ops).Adds kind op id)
    (kept : ∀ id' ∈ ids ++ [id], id' ∈ (empty.afterAll (ops ++ [op])).ids kind) :
    InOrder (ops ++ [op]) kind (ids ++ [id]) := by
  obtain ⟨hids, hid⟩ := List.forall_mem_append.mp kept
  obtain ⟨stamped, rfl, ascending, inserted⟩ := h
  refine ⟨stamped ++ [(ops.length, id)], by simp, ?_, ?_⟩
  · refine List.pairwise_append.mpr ⟨ascending, List.pairwise_singleton _ _, ?_⟩
    intro s hs s' hs'
    obtain rfl := List.mem_singleton.mp hs'
    exact (inserted s hs).lt_length
  · refine List.forall_mem_append.mpr ⟨fun s hs => ?_, ?_⟩
    · exact (inserted s hs).concat (hids s.2 (List.mem_map_of_mem hs))
    · simpa using insertedAt_length hadds (hid id (List.mem_singleton_self id))

/-- At any time the identifiers of a table are `InOrder` of their insertion. -/
theorem inOrder_ids (kind : RowKind) (ops : List Operation) :
    InOrder ops kind ((empty.afterAll ops).ids kind) := by
  induction ops using List.reverseRecOn with
  | nil => exact ⟨[], by cases kind <;> rfl, .nil, by simp⟩
  | append_singleton ops op ih =>
    have hafter := afterAll_concat empty ops op
    rcases ids_after (empty.afterAll ops) kind op with ⟨id, hadds, heq⟩ | ⟨-, hsub⟩
    · rw [← hafter] at heq
      rw [heq]
      exact ih.concat_inserted hadds fun id' hid' => heq ▸ hid'
    · rw [← hafter] at hsub
      exact (ih.sublist hsub).concat fun _ hid => hid

/-! ### Listings -/

/-- A listing shows all rows of a table that are asked for and no others, each as it stands in the
table, and in the order of the table. -/
structure ListsRows (t : Tables) : Prop where
  workflows : ∀ organization withDeleted,
    t.listWorkflows organization withDeleted = t.workflows.filter fun w =>
      w.organization = organization ∧ (withDeleted = true ∨ w.deleted = false)
  nodes : ∀ workflow withDeleted,
    t.listNodes workflow withDeleted = t.nodes.filter fun n =>
      n.workflow = workflow ∧ (withDeleted = true ∨ n.deleted = false)
  connections : ∀ workflow,
    t.listConnections workflow = t.connections.filter fun c => c.workflow = workflow
  executions : ∀ workflow,
    t.listExecutions workflow = t.executions.filter fun e => e.workflow = workflow

theorem listsRows (t : Tables) : t.ListsRows := by
  constructor
  case workflows =>
    intro organization withDeleted
    refine List.filter_congr fun w _ => ?_
    rw [Bool.decide_and, Bool.decide_or, Bool.decide_eq_true, beq_eq_decide, Bool.decide_eq_false]
  case nodes =>
    intro workflow withDeleted
    refine List.filter_congr fun n _ => ?_
    rw [Bool.decide_and, Bool.decide_or, Bool.decide_eq_true, beq_eq_decide, Bool.decide_eq_false]
  case connections => exact fun _ => List.filter_congr fun _ _ => beq_eq_decide _ _
  case executions => exact fun _ => List.filter_congr fun _ _ => beq_eq_decide _ _

/-! ### All operations -/

/-- If `t` is `Identified`, an operation that succeeds has its `Effect` on it: it adds one row at
the end of a table, changes the row it names where it stands (`Changed`), or removes the row it
names (`Removed`) with those that belong to it, and leaves all others as they are and where they
are.

Every listing is its table filtered (`ListsRows`), and after any operations `ops` the identifiers in
a table, and so those in a listing, are `InOrder ops`: they ascend by the time of insertion. -/
theorem operations_keep_order :
    (∀ (t t' : Tables) (op : Operation), t.Identified → t.perform op = .ok t' →
      t.Effect op t') ∧
    (∀ t : Tables, t.ListsRows) ∧
    ∀ ops,
      (∀ kind, InOrder ops kind ((empty.afterAll ops).ids kind)) ∧
      (∀ organization withDeleted, InOrder ops .workflow
        (((empty.afterAll ops).listWorkflows organization withDeleted).map Workflow.id)) ∧
      (∀ workflow withDeleted, InOrder ops .node
        (((empty.afterAll ops).listNodes workflow withDeleted).map Node.id)) ∧
      (∀ workflow, InOrder ops .connection
        (((empty.afterAll ops).listConnections workflow).map Connection.id)) ∧
      ∀ workflow, InOrder ops .execution
        (((empty.afterAll ops).listExecutions workflow).map Execution.id) := by
  refine ⟨fun t t' op => effect_of_perform, listsRows, fun ops => ⟨?_, ?_, ?_, ?_, ?_⟩⟩
  · exact fun kind => inOrder_ids kind ops
  · exact fun _ _ => (inOrder_ids .workflow ops).sublist (List.filter_sublist.map _)
  · exact fun _ _ => (inOrder_ids .node ops).sublist (List.filter_sublist.map _)
  · exact fun _ => (inOrder_ids .connection ops).sublist (List.filter_sublist.map _)
  · exact fun _ => (inOrder_ids .execution ops).sublist (List.filter_sublist.map _)

/-- Of two workflows each has a node, and a connection of the second one leads from the node of the
first. -/
def crossingOperations : List Operation :=
  [.insertWorkflow (.new (Uuid.ofHalves 1 1) Uuid.nil Uuid.nil "first" .eventCreated default),
    .insertWorkflow (.new (Uuid.ofHalves 1 2) Uuid.nil Uuid.nil "second" .eventCreated default),
    .insertNode (.trigger (Uuid.ofHalves 2 1) (Uuid.ofHalves 1 1)),
    .insertNode (.trigger (Uuid.ofHalves 2 2) (Uuid.ofHalves 1 2)),
    .insertConnection
      (.between (Uuid.ofHalves 3 1) (Uuid.ofHalves 1 2) (Uuid.ofHalves 2 1) (Uuid.ofHalves 2 2)),
    .insertConnection (.start (Uuid.ofHalves 3 2) (Uuid.ofHalves 1 2) (Uuid.ofHalves 2 2))]

/-- With the first node the connection that leaves it is removed, and with the first workflow that
connection stays. -/
theorem crossing_removed :
    let t := empty.afterAll crossingOperations
    t.Identified ∧
    (∃ t', t.perform (.hardDeleteNode (Uuid.ofHalves 2 1)) = .ok t' ∧
      t.Effect (.hardDeleteNode (Uuid.ofHalves 2 1)) t' ∧
      t'.ids .node = [Uuid.ofHalves 2 2] ∧ t'.ids .connection = [Uuid.ofHalves 3 2]) ∧
    ∃ t', t.perform (.hardDeleteWorkflow (Uuid.ofHalves 1 1)) = .ok t' ∧
      t.Effect (.hardDeleteWorkflow (Uuid.ofHalves 1 1)) t' ∧
      t'.ids .node = [Uuid.ofHalves 2 2] ∧
      t'.ids .connection = [Uuid.ofHalves 3 1, Uuid.ofHalves 3 2] := by
  intro t
  have hidentified : t.Identified := fun kind => by cases kind <;> decide
  obtain ⟨heffect, -⟩ := operations_keep_order
  exact ⟨hidentified, ⟨_, rfl, heffect _ _ _ hidentified rfl, by decide, by decide⟩,
    _, rfl, heffect _ _ _ hidentified rfl, by decide, by decide⟩

end TriggerFlow.Tables
