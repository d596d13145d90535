import Mathlib.Data.List.Induction
import Mathlib.Data.List.Nodup
import TriggerFlow.Proofs.Store.Tombstones
/-!
# Rows and their identifiers

Every table is asked for rows by their identifiers.  That no two rows of it share one is up to those
who insert them: the identifiers of a table stay distinct exactly as long as every row comes under
one that the table does not have (`identifiers_distinct_iff`).  Of the four tables only that of
workflows sees to this itself; the others take what they are given, and may then go on to answer
with the second row where the first has been deleted (`identifiers_shared`).

What an operation does to the identifiers of a table is said once, by `ids_after`: it adds one at
the end, or at most takes some away.
-/

namespace TriggerFlow.Tables

variable {t t' : Tables} {kind : RowKind} {id : Uuid} {op : Operation} {ops : List Operation}

/-! ### Operations that succeed -/

/-- The tables that an operation leads to, or the `StoreError` with which it is refused. -/
def perform (t : Tables) : Operation → Except StoreError Tables
  | .insertWorkflow row => (t.insertWorkflow row).map Prod.snd
  | .updateWorkflow row now => (t.updateWorkflow row now).map Prod.snd
  | .softDeleteWorkflow id now => (t.softDeleteWorkflow id now).map Prod.snd
  | .hardDeleteWorkflow id => (t.hardDeleteWorkflow id).map Prod.snd
  | .insertNode row => (t.insertNode row).map Prod.snd
  | .updateNode row => (t.updateNode row).map Prod.snd
  | .softDeleteNode id => (t.softDeleteNode id).map Prod.snd
  | .hardDeleteNode id => (t.hardDeleteNode id).map Prod.snd
  | .insertConnection row => (t.insertConnection row).map Prod.snd
  | .deleteConnection id => (t.deleteConnection id).map Prod.snd
  | .insertExecution row => (t.insertExecution row).map Prod.snd
  | .updateExecution row => (t.updateExecution row).map Prod.snd
  | .getWorkflow .. | .listWorkflows .. | .findActive .. | .getNode .. | .listNodes ..
  | .listConnections .. | .getExecution .. | .listExecutions .. => .ok t

theorem exists_of_map_eq_ok {α : Type} {o : Outcome α} (h : o.map Prod.snd = .ok t') :
    ∃ a, o = .ok (a, t') := by
  cases o with
  | error e => cases h
  | ok answer =>
    obtain ⟨a, t₁⟩ := answer
    obtain rfl := Except.ok.inj h
    exact ⟨a, rfl⟩

theorem resulting_eq {α : Type} (t : Tables) (o : Outcome α) :
    t.resulting o = (o.map Prod.snd).toOption.getD t := by
  cases o <;> rfl

/-- The tables after an operation are those of `perform`, or `t` where it is refused. -/
theorem after_eq (t : Tables) (op : Operation) : t.after op = (t.perform op).toOption.getD t := by
  cases op with
  | getWorkflow | listWorkflows | findActive | getNode | listNodes | listConnections
  | insertExecution | getExecution | listExecutions => rfl
  | _ => exact resulting_eq t _

theorem after_of_ok (h : t.perform op = .ok t') : t.after op = t' := by
  rw [after_eq, h]
  rfl

theorem after_of_error {e : StoreError} (h : t.perform op = .error e) : t.after op = t := by
  rw [after_eq, h]
  rfl

/-! ### Identifiers -/

/-- The column `id` of a table. -/
def ids (t : Tables) : RowKind → List Uuid
  | .workflow => t.workflows.map Workflow.id
  | .node => t.nodes.map Node.id
  | .connection => t.connections.map Connection.id
  | .execution => t.executions.map Execution.id

/-- The table to which an operation means to add a row, and the identifier of the row. -/
def Operation.inserts? : Operation → Option (RowKind × Uuid)
  | insertWorkflow row => some (.workflow, row.id)
  | insertNode row => some (.node, row.id)
  | insertConnection row => some (.connection, row.id)
  | insertExecution row => some (.execution, row.id)
  | _ => none

/-- The operation `inserts?` a row under `id` into the table, and succeeds. -/
def Adds (t : Tables) (kind : RowKind) (op : Operation) (id : Uuid) : Prop :=
  op.inserts? = some (kind, id) ∧ ∃ t', t.perform op = .ok t'

/-- An operation that `inserts?` a row appends its identifier to `ids` of its table, and leaves the
other tables as they are. -/
theorem ids_of_inserts {added : RowKind} (inserts : op.inserts? = some (added, id))
    (h : t.perform op = .ok t') :
    t'.ids added = t.ids added ++ [id] ∧ ∀ kind, kind ≠ added → t'.ids kind = t.ids kind := by
  cases op with
  | insertWorkflow row =>
    obtain ⟨rfl, rfl⟩ := Prod.mk.inj (Option.some.inj inserts)
    obtain ⟨_, h⟩ := exists_of_map_eq_ok h
    obtain ⟨-, -, rfl⟩ := insertWorkflow_eq_ok h
    exact ⟨List.map_append, fun kind _ => by cases kind <;> trivial⟩
  | insertNode row =>
    obtain ⟨rfl, rfl⟩ := Prod.mk.inj (Option.some.inj inserts)
    obtain ⟨_, h⟩ := exists_of_map_eq_ok h
    obtain ⟨-, -, rfl⟩ := insertNode_eq_ok h
    exact ⟨List.map_append, fun kind _ => by cases kind <;> trivial⟩
  | insertConnection row =>
    obtain ⟨rfl, rfl⟩ := Prod.mk.inj (Option.some.inj inserts)
    obtain ⟨_, h⟩ := exists_of_map_eq_ok h
    obtain ⟨-, -, rfl⟩ := insertConnection_eq_ok h
    exact ⟨List.map_append, fun kind _ => by cases kind <;> trivial⟩
  | insertExecution row =>
    obtain ⟨rfl, rfl⟩ := Prod.mk.inj (Option.some.inj inserts)
    obtain rfl := Except.ok.inj h
    exact ⟨List.map_append, fun kind _ => by cases kind <;> trivial⟩
  | _ => cases inserts

/-- Any other operation leaves a sublist of `ids` for each table. -/
theorem ids_sublist_of_perform (inserts : op.inserts? = none) (h : t.perform op = .ok t')
    (kind : RowKind) : (t'.ids kind).Sublist (t.ids kind) := by
  -- a change keeps the identifier of its row, and a removal leaves the others in their order
  cases op with
  | insertWorkflow | insertNode | insertConnection | insertExecution => cases inserts
  | updateWorkflow row now =>
    obtain ⟨_, h⟩ := exists_of_map_eq_ok h
    obtain ⟨stored, -, rfl, rfl⟩ := updateWorkflow_eq_ok h
    cases kind <;> simp [ids, map_replaceFirst]
  | softDeleteWorkflow id now =>
    obtain ⟨_, h⟩ := exists_of_map_eq_ok h
    obtain ⟨stored, hfound, rfl⟩ := softDeleteWorkflow_eq_ok h
    obtain ⟨-, hid, -⟩ := getWorkflow_eq_some hfound
    cases kind <;> simp [ids, map_replaceFirst, hid]
  | hardDeleteWorkflow id =>
    obtain ⟨_, h⟩ := exists_of_map_eq_ok h
    obtain rfl := hardDeleteWorkflow_eq_ok h
    cases kind with
    | execution => exact .refl _
    | _ => exact List.filter_sublist.map _
  | updateNode row =>
    obtain ⟨_, h⟩ := exists_of_map_eq_ok h
    obtain ⟨stored, -, rfl, rfl⟩ := updateNode_eq_ok h
    cases kind <;> simp [ids, map_replaceFirst]
  | softDeleteNode id =>
    obtain ⟨_, h⟩ := exists_of_map_eq_ok h
    obtain ⟨stored, hfound, rfl⟩ := softDeleteNode_eq_ok h
    obtain ⟨-, hid, -⟩ := getNode_eq_some hfound
    cases kind <;> simp [ids, map_replaceFirst, hid]
  | hardDeleteNode id =>
    obtain ⟨_, h⟩ := exists_of_map_eq_ok h
    obtain rfl := hardDeleteNode_eq_ok h
    cases kind with
    | node | connection => exact List.filter_sublist.map _
    | workflow | execution => exact .refl _
  | deleteConnection id =>
    obtain ⟨_, h⟩ := exists_of_map_eq_ok h
    obtain rfl := deleteConnection_eq_ok h
    cases kind with
    | connection => exact List.filter_sublist.map _
    | _ => exact .refl _
  | updateExecution row =>
    obtain ⟨_, h⟩ := exists_of_map_eq_ok h
    obtain ⟨stored, hfound, -, rfl⟩ := updateExecution_eq_ok h
    have hid : stored.id = row.id := id_of_getExecution hfound
    have hid : (written stored row).id = row.id := hid
    cases kind <;> simp [ids, map_replaceFirst, hid]
  | _ =>
    obtain rfl := Except.ok.inj h
    exact .refl _

/-- Whether it succeeds or not, an operation `Adds` one identifier at the end of those of a table,
or leaves a sublist of them. -/
theorem ids_after (t : Tables) (kind : RowKind) (op : Operation) :
    (∃ id, t.Adds kind op id ∧ (t.after op).ids kind = t.ids kind ++ [id]) ∨
      (∀ id, ¬ t.Adds kind op id) ∧ ((t.after op).ids kind).Sublist (t.ids kind) := by
  cases h : t.perform op with
  | error e =>
    rw [after_of_error h]
    exact .inr ⟨by simp [Adds, h], .refl _⟩
  | ok t' =>
    rw [after_of_ok h]
    cases hinserts : op.inserts? with
    | none => exact .inr ⟨by simp [Adds, hinserts], ids_sublist_of_perform hinserts h kind⟩
    | some row =>
      obtain ⟨added, id⟩ := row
      obtain ⟨hadded, hothers⟩ := ids_of_inserts hinserts h
      by_cases hkind : kind = added
      · subst hkind
        exact .inl ⟨id, ⟨hinserts, t', h⟩, hadded⟩
      · rw [hothers kind hkind]
        exact .inr ⟨by simp [Adds, hinserts, Ne.symm hkind], .refl _⟩

/-! ### Distinct identifiers -/

/-- Distinct identifiers are distinct after an operation exactly if it `Adds` none of them. -/
theorem nodup_ids_after_iff (distinct : (t.ids kind).Nodup) :
    ((t.after op).ids kind).Nodup ↔ ∀ id, t.Adds kind op id → id ∉ t.ids kind := by
  rcases ids_after t kind op with ⟨id, hadds, heq⟩ | ⟨hnone, hsub⟩
  · rw [heq, ← List.concat_eq_append, List.nodup_concat]
    constructor
    · rintro ⟨hnew, -⟩ id' hadds'
      obtain ⟨-, rfl⟩ := Prod.mk.inj (Option.some.inj (hadds.1.symm.trans hadds'.1))
      exact hnew
    · exact fun hnew => ⟨hnew id hadds, distinct⟩
  · exact iff_of_true (distinct.sublist hsub) fun id hadds => absurd hadds (hnone id)

/-- Whenever one of the operations `Adds` a row to the table, no row of the table has its identifier
by then. -/
def InsertsNew (kind : RowKind) (ops : List Operation) : Prop :=
  ∀ before op id, before ++ [op] <+: ops → (empty.afterAll before).Adds kind op id →
    id ∉ (empty.afterAll before).ids kind

theorem insertsNew_concat_iff :
    InsertsNew kind (ops ++ [op]) ↔ InsertsNew kind ops ∧
      ∀ id, (empty.afterAll ops).Adds kind op id → id ∉ (empty.afterAll ops).ids kind := by
  constructor
  · intro hnew
    refine ⟨fun before op' id hbefore => ?_, fun id => hnew ops op id List.prefix_rfl⟩
    exact hnew before op' id (hbefore.trans (List.prefix_append _ _))
  · rintro ⟨hnew, hlast⟩ before op' id hbefore
    rcases List.prefix_concat_iff.mp hbefore with heq | hbefore
    · obtain ⟨rfl, hop⟩ := List.append_inj' heq rfl
      obtain rfl := List.singleton_inj.mp hop
      exact hlast id
    · exact hnew before op' id hbefore

/-- Identifiers of a kind are distinct at all times exactly if `InsertsNew` holds of the operations.
-/
theorem nodup_ids_iff_insertsNew (kind : RowKind) (ops : List Operation) :
    (∀ before, before <+: ops → ((empty.afterAll before).ids kind).Nodup) ↔
      InsertsNew kind ops := by
  induction ops using List.reverseRecOn with
  | nil =>
    refine iff_of_true (fun before hbefore => ?_) fun before op id hbefore => ?_
    · obtain rfl := List.prefix_nil.mp hbefore
      cases kind <;> exact List.nodup_nil
    · simp at hbefore
  | append_singleton ops op ih =>
    rw [insertsNew_concat_iff, ← ih]
    constructor
    · intro hall
      have hops (before : List Operation) (hbefore : before <+: ops) :=
        hall before (hbefore.trans (List.prefix_append _ _))
      refine ⟨hops, (nodup_ids_after_iff (hops ops List.prefix_rfl)).mp ?_⟩
      rw [← afterAll_concat]
      exact hall _ List.prefix_rfl
    · rintro ⟨hops, hnew⟩ before hbefore
      rcases List.prefix_concat_iff.mp hbefore with rfl | hbefore
      · rw [afterAll_concat]
        exact (nodup_ids_after_iff (hops ops List.prefix_rfl)).mpr hnew
      · exact hops before hbefore

theorem perform_insertWorkflow_of_mem {row : Workflow} (there : row.id ∈ t.ids .workflow) :
    t.perform (.insertWorkflow row) =
      .error (.conflict ("workflow " ++ row.id.text ++ " exists")) := by
  have hany : (t.workflows.any fun w => w.id == row.id) = true := by
    obtain ⟨w, hw, hid⟩ := List.mem_map.mp there
    exact List.any_eq_true.mpr ⟨w, hw, by simp [hid]⟩
  rw [perform, insertWorkflow, if_pos hany]
  rfl

/-- Workflows always come under new identifiers: `insertWorkflow` refuses any other. -/
theorem insertsNew_workflow (ops : List Operation) : InsertsNew .workflow ops := by
  rintro before op id - ⟨hinserts, t', hdone⟩ hmem
  cases op with
  | insertWorkflow row =>
    obtain rfl : row.id = id := congrArg Prod.snd (Option.some.inj hinserts)
    rw [perform_insertWorkflow_of_mem hmem] at hdone
    cases hdone
  | _ => simp [Operation.inserts?] at hinserts

/-! ### Nodes that are deleted -/

/-- Replacing the first row under `id` by a tombstone brings up the first live one among the others
under `id`. -/
theorem find?_live_replaceFirst {α : Type} {key : α → Uuid} {dead : α → Bool} {row : α}
    (hdead : dead row = true) (rows : List α) :
    (replaceFirst (fun a => key a == id) row rows).find? (fun a => key a == id && !dead a) =
      (rows.filter fun a => key a == id).tail.find? fun a => !dead a := by
  induction rows with
  | nil => rfl
  | cons a as ih =>
    rw [replaceFirst, List.filter_cons]
    by_cases ha : key a = id
    · rw [if_pos (beq_iff_eq.mpr ha), if_pos (beq_iff_eq.mpr ha), List.tail_cons,
        List.find?_cons_of_neg (by simp [hdead]), List.find?_filter]
      simp only [Bool.decide_and, Bool.decide_eq_true]
    · rw [if_neg (by simpa using ha), if_neg (by simpa using ha),
        List.find?_cons_of_neg (by simp [ha]), ih]

/-- After `softDeleteNode id` the node found is the first live one among the other rows of the
identifier. -/
theorem getNode_of_softDeleteNode {u : Unit} (h : t.softDeleteNode id = .ok (u, t')) :
    t'.getNode id false =
      (t.nodes.filter fun n => n.id == id).tail.find? fun n => !n.deleted := by
  obtain ⟨stored, -, rfl⟩ := softDeleteNode_eq_ok h
  simp only [getNode, Bool.false_or]
  exact find?_live_replaceFirst rfl t.nodes

theorem getNode_of_softDeleteNode_of_nodup {u : Unit} (distinct : (t.ids .node).Nodup)
    (h : t.softDeleteNode id = .ok (u, t')) : t'.getNode id false = none := by
  obtain ⟨stored, -, rfl⟩ := softDeleteNode_eq_ok h
  exact BuriedNode.getNode (buried_replaceFirst distinct rfl)

/-- After `hardDeleteNode id` no node is found. -/
theorem getNode_of_hardDeleteNode {u : Unit} (h : t.hardDeleteNode id = .ok (u, t')) :
    t'.getNode id false = none := by
  rw [hardDeleteNode_eq_ok h]
  refine BuriedNode.getNode fun n hn hid => ?_
  obtain ⟨-, hne⟩ := List.mem_filter.mp hn
  simp [hid] at hne

/-! ### Identifiers of all tables -/

/-- The identifiers of a table are distinct at all times exactly if rows come under new ones, as
workflows always do: a second workflow of an identifier is refused with `conflict`, and nothing
changes.  As long as nodes come under new ones a deleted node is not found; in general
`softDeleteNode` brings up the next live row of the identifier, and `hardDeleteNode` leaves none. -/
theorem identifiers_distinct_iff (ops : List Operation) :
    (∀ kind, (∀ before, before <+: ops → ((empty.afterAll before).ids kind).Nodup) ↔
      InsertsNew kind ops) ∧
    InsertsNew .workflow ops ∧
    (∀ (t : Tables) (row : Workflow), row.id ∈ t.ids .workflow →
      t.perform (.insertWorkflow row) =
          .error (.conflict ("workflow " ++ row.id.text ++ " exists")) ∧
        t.after (.insertWorkflow row) = t) ∧
    (InsertsNew .node ops → ∀ before, before <+: ops → ∀ id t',
      (empty.afterAll before).perform (.softDeleteNode id) = .ok t' →
        t'.getNode id false = none) ∧
    (∀ (t : Tables) id t', t.perform (.softDeleteNode id) = .ok t' →
      t'.getNode id false =
        (t.nodes.filter fun n => n.id == id).tail.find? fun n => !n.deleted) ∧
    ∀ (t : Tables) id t', t.perform (.hardDeleteNode id) = .ok t' →
      t'.getNode id false = none := by
  refine ⟨fun kind => nodup_ids_iff_insertsNew kind ops, insertsNew_workflow ops, ?_, ?_, ?_, ?_⟩
  · intro t row there
    have hrefused := perform_insertWorkflow_of_mem there
    exact ⟨hrefused, after_of_error hrefused⟩
  · intro hnew before hbefore id t' hdone
    obtain ⟨u, hdone⟩ := exists_of_map_eq_ok hdone
    have hdistinct := (nodup_ids_iff_insertsNew .node ops).mpr hnew before hbefore
    exact getNode_of_softDeleteNode_of_nodup hdistinct hdone
  · intro t id t' hdone
    obtain ⟨u, hdone⟩ := exists_of_map_eq_ok hdone
    exact getNode_of_softDeleteNode hdone
  · intro t id t' hdone
    obtain ⟨u, hdone⟩ := exists_of_map_eq_ok hdone
    exact getNode_of_hardDeleteNode hdone

def namesakeWorkflow : Workflow :=
  .new Uuid.nil Uuid.nil Uuid.nil "namesakes" .eventCreated default

def namesakeNode (name : String) : Node := (Node.trigger (Uuid.ofHalves 0 1) Uuid.nil).withName name

def firstOperations : List Operation :=
  [.insertWorkflow namesakeWorkflow, .insertNode (namesakeNode "first")]

/-- Nothing is left to be found when the only node of `firstOperations` is deleted. -/
theorem only_node_deleted :
    InsertsNew .node firstOperations ∧
    ∃ t', (empty.afterAll firstOperations).perform
        (.softDeleteNode (namesakeNode "first").id) = .ok t' ∧
      t'.getNode (namesakeNode "first").id false = none := by
  have hdistinct (before : List Operation) (hbefore : before <+: firstOperations) :
      ((empty.afterAll before).ids .node).Nodup := by
    obtain rfl | rfl | rfl : before = [] ∨ before = [.insertWorkflow namesakeWorkflow] ∨
        before = firstOperations := by
      simpa [firstOperations, List.prefix_cons_iff, and_or_left, exists_or] using hbefore
    all_goals decide
  obtain ⟨hiff, -, -, hdeleted, -⟩ := identifiers_distinct_iff firstOperations
  have hnew := (hiff .node).mp hdistinct
  exact ⟨hnew, _, rfl, hdeleted hnew _ List.prefix_rfl _ _ rfl⟩

/-- A second node comes under the identifier of the first one, and connections and executions come
in pairs as well. -/
def namesakeOperations : List Operation :=
  firstOperations ++
    [.insertNode (namesakeNode "second"),
      .insertConnection (.start Uuid.nil Uuid.nil (namesakeNode "first").id),
      .insertConnection (.start Uuid.nil Uuid.nil (namesakeNode "first").id),
      .insertExecution (.start Uuid.nil Uuid.nil "event.created" [] default),
      .insertExecution (.start Uuid.nil Uuid.nil "event.created" [] default)]

/-- All of `namesakeOperations` succeed, and when the first node is deleted the second one is found.
-/
theorem identifiers_shared :
    let t := empty.afterAll namesakeOperations
    ¬ (t.ids .node).Nodup ∧ ¬ (t.ids .connection).Nodup ∧ ¬ (t.ids .execution).Nodup ∧
    ∃ t', t.perform (.softDeleteNode (namesakeNode "first").id) = .ok t' ∧
      t'.getNode (namesakeNode "first").id false = some (namesakeNode "second") :=
  ⟨by decide, by decide, by decide, _, rfl, rfl⟩

end TriggerFlow.Tables
