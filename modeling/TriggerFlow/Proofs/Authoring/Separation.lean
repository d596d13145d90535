import TriggerFlow.Proofs.Authoring.Integrity
import TriggerFlow.Proofs.Deletion
/-!
# Workflows do not get in each other's way

What authors do to one workflow is not seen by those who work with another: the tables before and
after an operation that `IsOn` the one are `Tables.SeenAlike` for the other (`authoring_separate`).
Some operations remove rows by the identifier of a node or of a connection, from whatever workflow
they are.  Yet in `Authored` tables these are rows of one workflow: both ends of a connection are
nodes of its own workflow (`Intact`), and an identifier of a connection is given out once (`Filed`).

Two things can be seen (`authoring_pried_on`).  An action may ask the store for rows of other
workflows.  And of several nodes on a cycle `Graph.warnings` names one that depends on how the
components are listed, which may differ between any two calls of `validateGraph`.
-/

namespace TriggerFlow

/-- The rows of a workflow, deleted ones included, and all executions are the same in `t` and `t'`.
-/
structure Tables.Spares (workflow : WorkflowId) (t t' : Tables) : Prop where
  nodes : t'.listNodes workflow true = t.listNodes workflow true
  connections : t'.listConnections workflow = t.listConnections workflow
  executions : t'.executions = t.executions

namespace Tables

variable {workflow : WorkflowId} {t t' : Tables}

theorem Spares.refl (workflow : WorkflowId) (t : Tables) : t.Spares workflow t := ⟨rfl, rfl, rfl⟩

theorem Spares.graph (spares : t.Spares workflow t') :
    Graph.ofTables t' workflow = Graph.ofTables t workflow := by
  rw [Graph.ofTables, Graph.ofTables, spares.nodes, spares.connections]

theorem Spares.seenAlike {workflow : Workflow} (spares : t.Spares workflow.id t') :
    t.SeenAlike workflow t' :=
  seenAlike_of_graph spares.executions spares.graph

/-- Replacing a row that `q` drops by another that it drops does not change what `filter q` leaves.
-/
theorem filter_replaceFirst {α : Type} {p q : α → Bool} {row : α} {as : List α}
    (out : ∀ a ∈ as, p a = true → q a = false) (hrow : q row = false) :
    (replaceFirst p row as).filter q = as.filter q := by
  induction as with
  | nil => rfl
  | cons a as ih =>
    obtain ⟨ha, has⟩ := List.forall_mem_cons.mp out
    rw [replaceFirst]
    cases hp : p a with
    | true =>
      rw [if_pos rfl, List.filter_cons_of_neg (by simp [hrow]),
        List.filter_cons_of_neg (by simp [ha hp])]
    | false => rw [if_neg Bool.false_ne_true, List.filter_cons, List.filter_cons, ih has]

/-- Appending a row that `q` drops does not change what `filter q` leaves. -/
theorem filter_concat_of_neg {α : Type} {q : α → Bool} {row : α} (out : q row = false)
    (as : List α) : (as ++ [row]).filter q = as.filter q := by
  rw [List.filter_append, List.filter_cons, out, if_neg Bool.false_ne_true, List.filter_nil,
    List.append_nil]

/-- Removing rows that `q` drops does not change what `filter q` leaves. -/
theorem filter_filter_of_imp {α : Type} {keep q : α → Bool} {as : List α}
    (kept : ∀ a ∈ as, q a = true → keep a = true) :
    (as.filter keep).filter q = as.filter q := by
  rw [List.filter_filter]
  refine List.filter_congr fun a ha => ?_
  cases hq : q a with
  | true => rw [kept a ha hq, Bool.and_true]
  | false => rw [Bool.false_and]

end Tables

namespace Authoring

variable {s : Storage} {t t' : Tables} {h given : Handles}

/-! ### Connections keep their identifiers to themselves -/

/-- Every row of a connection is in `h.connections`, and rows in hand that have the same identifier
are equal. -/
structure Filed (t : Tables) (h : Handles) : Prop where
  agree : ∀ c ∈ h.connections, ∀ c' ∈ h.connections, c.id = c'.id → c = c'
  known : t.connections ⊆ h.connections

theorem filed_empty : Filed Tables.empty Handles.empty := by
  refine ⟨?_, List.nil_subset _⟩
  intro c hc
  simp [Handles.empty] at hc

theorem Filed.copied (hf : Filed t h) :
    Copied Connection.id (fun c => c) t.connections h.connections :=
  ⟨hf.agree, fun c hc => ⟨c, hf.known hc, rfl, rfl⟩⟩

/-- Handing out rows of the tables and removing rows keeps `Filed`. -/
theorem Filed.handOut (hf : Filed t h) (hconnections : t'.connections ⊆ t.connections)
    (hgiven : given.connections ⊆ t.connections) : Filed t' (h.and given) := by
  refine ⟨(hf.copied.handOut fun c hc => hf.copied.known c (hgiven hc)).agree, ?_⟩
  exact fun c hc => List.mem_append_left _ (hf.known (hconnections hc))

/-- Adding a connection under a new identifier keeps `Filed`. -/
theorem Filed.add (hf : Filed t h) {row : Connection} (hnew : ∀ c ∈ h.connections, c.id ≠ row.id) :
    Filed { t with connections := t.connections ++ [row] } (h.and (.ofConnections [row])) := by
  refine ⟨(hf.copied.add hnew).agree, fun c hc => ?_⟩
  rcases List.mem_append.mp hc with hc | hc
  · exact List.mem_append_left _ (hf.known hc)
  · exact List.mem_append_right _ hc

theorem filed_of_does {op : Operation} (hf : Filed s.tables h) (fresh : h.Fresh s)
    (does : Does s op given t) : Filed t (h.and given) := by
  cases does with
  | look looking within => exact hf.handOut (List.Subset.refl _) within.connections
  | createConnection id_eq member ends owner =>
    apply hf.add
    rw [id_eq]
    exact fresh.connection
  | hardDelete => exact hf.handOut List.filter_sublist.subset (List.nil_subset _)
  | hardDeleteNode => exact hf.handOut List.filter_sublist.subset (List.nil_subset _)
  | deleteConnection => exact hf.handOut List.filter_sublist.subset (List.nil_subset _)
  | _ => exact hf.handOut (List.Subset.refl _) (List.nil_subset _)

/-- Whatever authors do, an identifier is that of one connection: `Authored` tables are `Filed`. -/
theorem filed_of_authored (authored : Authored t h) : Filed t h :=
  authored.holds filed_empty (fun _ _ _ hf => ⟨hf.agree, hf.known⟩)
    fun _ _ _ _ _ _ hf _ fresh hrun => filed_of_does hf fresh (does_of_run hrun)

/-! ### Operations on a workflow -/

/-- The operation is on `workflow`, or on a node or a connection of it, as far as it names any.  An
operation that makes or reads by identifier is on every workflow. -/
def Operation.IsOn (t : Tables) (workflow : WorkflowId) : Operation → Prop
  | create .. | get _ | list _ | getNode _ => True
  | update w _ | delete w | hardDelete w | createNode w _ | listNodes w | createConnection w _
  | listConnections w | validateGraph _ w => w.id = workflow
  | updateNode n _ | deleteNode n | hardDeleteNode n => n.workflow = workflow
  | deleteConnection id => ∃ c ∈ t.connections, c.id = id ∧ c.workflow = workflow

/-- An operation that succeeds on one workflow `Spares` every other. -/
theorem spares_of_does {op : Operation} {workflow other : WorkflowId} (hi : Intact s.tables h)
    (hf : Filed s.tables h) (held : op.Held h) (on : op.IsOn s.tables workflow)
    (distinct : other ≠ workflow) (does : Does s op given t) : s.tables.Spares other t := by
  -- what is listed belongs to the other workflow
  have hlisted {n : Node} (hn : (n.workflow == other && (true || !n.deleted)) = true) :
      n.workflow ≠ workflow := by
    have hworkflow : n.workflow = other := by simpa using hn
    rwa [hworkflow]
  have hunlisted {n : Node} (hn : n.workflow = workflow) :
      (n.workflow == other && (true || !n.deleted)) = false := by
    rw [← Bool.not_eq_true]
    exact fun h => hlisted h hn
  have hjoins {c : Connection} (hc : (c.workflow == other) = true) : c.workflow ≠ workflow := by
    rwa [beq_iff_eq.mp hc]
  cases does with
  | look => exact .refl other s.tables
  | create => exact ⟨rfl, rfl, rfl⟩
  | update => exact ⟨rfl, rfl, rfl⟩
  | delete => exact ⟨rfl, rfl, rfl⟩
  | @hardDelete w =>
    obtain rfl : w.id = workflow := on
    refine ⟨Tables.filter_filter_of_imp ?_, Tables.filter_filter_of_imp ?_, rfl⟩
    · exact fun n _ hn => bne_iff_ne.mpr (hlisted hn)
    · exact fun c _ hc => bne_iff_ne.mpr (hjoins hc)
  | @createNode w data row id_eq member =>
    refine ⟨Tables.filter_concat_of_neg ?_ _, rfl, rfl⟩
    exact hunlisted (member.trans on)
  | @updateNode node data row stored found id_eq member mark =>
    refine ⟨Tables.filter_replaceFirst ?_ (hunlisted (member.trans on)), rfl, rfl⟩
    intro n hn hid
    exact hunlisted ((hi.copied.mark_eq hn held (beq_iff_eq.mp hid)).trans on)
  | @deleteNode node row stored found row_eq =>
    obtain ⟨hstored, hid, -⟩ := Tables.getNode_eq_some found
    have hrow : row.workflow = workflow := by
      rw [row_eq]
      exact (hi.copied.mark_eq hstored held hid).trans on
    refine ⟨Tables.filter_replaceFirst ?_ (hunlisted hrow), rfl, rfl⟩
    intro n hn hid
    exact hunlisted ((hi.copied.mark_eq hn held (beq_iff_eq.mp hid)).trans on)
  | @hardDeleteNode node =>
    refine ⟨Tables.filter_filter_of_imp ?_, Tables.filter_filter_of_imp ?_, rfl⟩
    · intro n hn hlist
      rw [bne_iff_ne]
      exact fun hid => hlisted hlist ((hi.copied.mark_eq hn held hid).trans on)
    · -- a connection that touches the node is of the node's workflow
      intro c hc hlist
      have haway (hend : c.target = node.id ∨ c.source = some node.id) : False := by
        obtain ⟨n, hn, hid, hw⟩ := hi.anchored c hc _ hend
        exact hjoins hlist (hw.symm.trans ((hi.copied.mark_eq hn held hid).trans on))
      rw [Bool.and_eq_true, bne_iff_ne, bne_iff_ne]
      exact ⟨fun h => haway (.inl h), fun h => haway (.inr h)⟩
  | @createConnection w data row id_eq member ends owner =>
    refine ⟨rfl, Tables.filter_concat_of_neg ?_ _, rfl⟩
    rw [← Bool.not_eq_true]
    exact fun h => hjoins h (member.trans on)
  | @deleteConnection id =>
    obtain ⟨c', hc', rfl, hworkflow⟩ := on
    refine ⟨rfl, Tables.filter_filter_of_imp ?_, rfl⟩
    intro c hc hlist
    rw [bne_iff_ne]
    intro hid
    rw [← hf.copied.mark_eq hc (hf.known hc') hid] at hworkflow
    exact hjoins hlist hworkflow

/-- Whether it succeeds or not, an operation on one workflow `Spares` every other in `Authored`
tables. -/
theorem spares_of_authored (authored : Authored s.tables h) {op : Operation} (held : op.Held h)
    {workflow other : WorkflowId} (on : op.IsOn s.tables workflow) (distinct : other ≠ workflow) :
    s.tables.Spares other (leftBy (op.run s)).tables := by
  cases hrun : op.run s with
  | ok given s' =>
    exact spares_of_does (intact_of_authored authored) (filed_of_authored authored) held on distinct
      (does_of_run hrun)
  | error e s' =>
    rw [leftBy_error, tables_of_refused hrun]
    exact .refl other s.tables

/-- In `Authored` tables, an operation that `IsOn` one workflow leaves tables that are `SeenAlike`
to those who work with another workflow, whether it succeeds or not: the graph of the other workflow
and its runs are as they were, and its warnings are so one by one, but that a warning of a cycle may
name another node on a cycle. -/
theorem authoring_separate (authored : Authored s.tables h) {op : Operation} (held : op.Held h)
    {workflow : WorkflowId} (on : op.IsOn s.tables workflow) {other : Workflow}
    (distinct : other.id ≠ workflow) : s.tables.SeenAlike other (leftBy (op.run s)).tables :=
  (spares_of_authored authored held on distinct).seenAlike

def pried : Workflow := .new (Uuid.ofHalves 0 1) Uuid.nil Uuid.nil "pried" .eventCreated default

def prying : Workflow := .new (Uuid.ofHalves 0 2) Uuid.nil Uuid.nil "prying" .eventCreated default

def priedNode : Node := .new (Uuid.ofHalves 0 1) pried.id .trigger

/-- They give each of the workflows a node, and lead the trigger there. -/
def pryingOperations : List Operation :=
  [.create ⟨some "pried", none, some "event.created", none, none⟩ Uuid.nil Uuid.nil,
   .create ⟨some "prying", none, some "event.created", none, none⟩ Uuid.nil Uuid.nil,
   .createNode pried ⟨some "trigger", none, none, none, none⟩,
   .createNode prying ⟨some "action", some "prod", none, none, none⟩,
   .createConnection pried ⟨none, some (Uuid.ofHalves 0 1), none, none⟩,
   .createConnection prying ⟨none, some (Uuid.ofHalves 0 2), none, none⟩]

/-- An empty store whose identifiers of each kind count up from 1. -/
def emptyStorage : Storage := .fresh (.ofNames fun _ n => Uuid.ofHalves 0 n) default

/-- The store after `pryingOperations`. -/
def pryingStorage : Storage := after emptyStorage pryingOperations

theorem authored_pryingStorage : ∃ h, Authored pryingStorage.tables h ∧ priedNode ∈ h.nodes := by
  have legal : Legal emptyStorage .empty pryingOperations :=
    ⟨trivial, ⟨by decide +kernel, by decide +kernel, by decide +kernel⟩,
      trivial, ⟨by decide +kernel, by decide +kernel, by decide +kernel⟩,
      List.mem_cons_self .., ⟨by decide +kernel, by decide +kernel, by decide +kernel⟩,
      List.mem_cons_of_mem _ (List.mem_cons_self ..),
      ⟨by decide +kernel, by decide +kernel, by decide +kernel⟩,
      List.mem_cons_self .., ⟨by decide +kernel, by decide +kernel, by decide +kernel⟩,
      List.mem_cons_of_mem _ (List.mem_cons_self ..),
      ⟨by decide +kernel, by decide +kernel, by decide +kernel⟩, trivial⟩
  exact ⟨_, Authored.empty.after legal, List.mem_cons_self ..⟩

/-- `hardDeleteNode priedNode` takes one of two nodes and one of two connections, and those who work
with `prying` do not see it: its graph is what it was, its warnings name the same things, and the
runs of built-in actions are the same. -/
theorem pryingStorage_separate :
    let after := (leftBy ((Operation.hardDeleteNode priedNode).run pryingStorage)).tables
    pryingStorage.tables.nodes.length = 2 ∧ after.nodes.length = 1 ∧
      pryingStorage.tables.connections.length = 2 ∧ after.connections.length = 1 ∧
      Graph.ofTables after prying.id = Graph.ofTables pryingStorage.tables prying.id ∧
      (∀ catalogue (s : Storage), Together (Storage.Akin Definitions.Any)
        (validateGraph catalogue prying Graph.components (s.withTables pryingStorage.tables))
        (validateGraph catalogue prying Graph.components (s.withTables after))) ∧
      ∀ maxDepth triggerType payload (w : World), Together (World.Akin Definitions.Any)
        (Engine.execute ⟨Builtin.catalogue, maxDepth⟩ prying triggerType payload
          (w.withTables pryingStorage.tables))
        (Engine.execute ⟨Builtin.catalogue, maxDepth⟩ prying triggerType payload
          (w.withTables after)) := by
  obtain ⟨h, authored, held⟩ := authored_pryingStorage
  have on : (Operation.hardDeleteNode priedNode).IsOn pryingStorage.tables pried.id := rfl
  have distinct : prying.id ≠ pried.id := by decide
  have held : (Operation.hardDeleteNode priedNode).Held h := held
  have halike := authoring_separate authored held on distinct
  refine ⟨by decide +kernel, by decide +kernel, by decide +kernel, by decide +kernel,
    halike.graph, fun catalogue => halike.inspection catalogue _, fun maxDepth => ?_⟩
  exact halike.runs _ _ (Engine.indifferent_of_builtin rfl _) trivial

/-- The same two workflows, of which `prying` has two nodes that lead to each other. -/
def loopedOperations : List Operation :=
  [.create ⟨some "pried", none, some "event.created", none, none⟩ Uuid.nil Uuid.nil,
   .create ⟨some "prying", none, some "event.created", none, none⟩ Uuid.nil Uuid.nil,
   .createNode prying ⟨some "action", some "log", none, none, none⟩,
   .createNode prying ⟨some "action", some "log", none, none, none⟩,
   .createConnection prying ⟨some (Uuid.ofHalves 0 1), some (Uuid.ofHalves 0 2), none, none⟩,
   .createConnection prying ⟨some (Uuid.ofHalves 0 2), some (Uuid.ofHalves 0 1), none, none⟩]

/-- The store after `loopedOperations`. -/
def loopedStorage : Storage := after emptyStorage loopedOperations

theorem authored_loopedStorage : ∃ h, Authored loopedStorage.tables h ∧ pried ∈ h.workflows := by
  have legal : Legal emptyStorage .empty loopedOperations :=
    ⟨trivial, ⟨by decide +kernel, by decide +kernel, by decide +kernel⟩,
      trivial, ⟨by decide +kernel, by decide +kernel, by decide +kernel⟩,
      List.mem_cons_of_mem _ (List.mem_cons_self ..),
      ⟨by decide +kernel, by decide +kernel, by decide +kernel⟩,
      List.mem_cons_of_mem _ (List.mem_cons_self ..),
      ⟨by decide +kernel, by decide +kernel, by decide +kernel⟩,
      List.mem_cons_of_mem _ (List.mem_cons_self ..),
      ⟨by decide +kernel, by decide +kernel, by decide +kernel⟩,
      List.mem_cons_of_mem _ (List.mem_cons_self ..),
      ⟨by decide +kernel, by decide +kernel, by decide +kernel⟩, trivial⟩
  exact ⟨_, Authored.empty.after legal, List.mem_cons_self ..⟩

/-- An action of `prying` that deletes `priedNode` finds it before its removal, but not after.  And
before and after a node is made in `pried`, the warning of the cycle in `prying` may name the one or
the other of its nodes: `NamedApart`. -/
theorem authoring_pried_on :
    prying.id ≠ pried.id ∧
    (∃ h, Authored pryingStorage.tables h ∧ (Operation.hardDeleteNode priedNode).Held h ∧
      (Operation.hardDeleteNode priedNode).IsOn pryingStorage.tables pried.id ∧ ∃ given s',
        (Operation.hardDeleteNode priedNode).run pryingStorage = .ok given s' ∧
        prodded prying pryingStorage.tables = [some [((Uuid.ofHalves 0 2).text, .bool true)]] ∧
        prodded prying s'.tables = [some [((Uuid.ofHalves 0 2).text, .bool false)]]) ∧
    ∃ data h, Authored loopedStorage.tables h ∧ (Operation.createNode pried data).Held h ∧
      (Operation.createNode pried data).IsOn loopedStorage.tables pried.id ∧ ∃ given s',
        (Operation.createNode pried data).run loopedStorage = .ok given s' ∧
        Graph.ofTables s'.tables prying.id = Graph.ofTables loopedStorage.tables prying.id ∧
        loopedStorage.tables.NamedApart prying s'.tables := by
  have distinct : prying.id ≠ pried.id := by decide
  refine ⟨distinct, ?_, ?_⟩
  · obtain ⟨h, authored, held⟩ := authored_pryingStorage
    refine ⟨h, authored, held, rfl, _, _, rfl, ?_, ?_⟩
    all_goals
      rw [prodded, Engine.execute_of_leaf rfl rfl rfl
        (ofRows_eq_proddedGraph (Uuid.ofHalves 0 2) (Uuid.ofHalves 0 2) rfl rfl) rfl rfl rfl]
      rfl
  · obtain ⟨h, authored, held⟩ := authored_loopedStorage
    have held : (Operation.createNode pried ⟨some "trigger", none, none, none, none⟩).Held h := held
    have same := (spares_of_authored authored held rfl distinct).graph
    refine ⟨_, h, authored, held, rfl, _, _, rfl, same, ?_⟩
    refine Tables.namedApart_of_linked (a := Uuid.ofHalves 0 1) (b := Uuid.ofHalves 0 2) same
      (by decide) ?_ ?_
    · exact ⟨⟨by decide +kernel, by decide +kernel⟩, ⟨by decide +kernel, by decide +kernel⟩,
        by decide +kernel⟩
    · exact ⟨⟨by decide +kernel, by decide +kernel⟩, ⟨by decide +kernel, by decide +kernel⟩,
        by decide +kernel⟩

end Authoring

end TriggerFlow
