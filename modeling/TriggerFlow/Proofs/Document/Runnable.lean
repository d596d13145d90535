import TriggerFlow.Proofs.Document.Depiction
import TriggerFlow.Proofs.Engine.Success
/-!
# Documents that can be run

Whether the graph of a document can be run is seen from the document (`Document.Runnable`): from its
entries, and from the way in which its connections lead from key to key (`Document.Leads`).  In a
store that holds the document under identifiers that differ from one another, the graph is runnable
if and only if the document is (`runnable_iff`).  Two stores that hold it therefore agree, whatever
their identifiers.
-/

namespace TriggerFlow

/-- If the entry is of an action, the action is known and `validate` has no objections to its
settings. -/
def NodeEntry.Able (catalogue : Catalogue) (n : NodeEntry) : Prop :=
  n.nodeType = Vocabulary.text NodeType.action →
    ∃ t action, n.actionType = some t ∧ catalogue.action? t = some action ∧
      action.validate n.config = []

namespace Document

/-- A connection of the document leads from `key` to `key'`. -/
def Leads (d : Document) (key key' : String) : Prop :=
  ∃ c ∈ d.connections, c.source = some key ∧ c.target = key'

/-- Nothing that a document says keeps a run of it from its end: it has a connection from the
trigger, its nodes are `Able`, and `Leads` leads nowhere back. -/
structure Runnable (d : Document) (catalogue : Catalogue) : Prop where
  started : ∃ c ∈ d.connections, c.source = none
  able : ∀ n ∈ d.nodes, n.Able catalogue
  acyclic : ∀ key, ¬ Relation.TransGen d.Leads key key

/-- Connections lead from the trigger to `key`. -/
def Reaches (d : Document) (key : String) : Prop :=
  ∃ c ∈ d.connections, c.source = none ∧ Relation.ReflTransGen d.Leads c.target key

/-- The document is `Accepted` and `Runnable`, and every node but triggers is reached. -/
structure Valid (d : Document) (catalogue : Catalogue) : Prop where
  accepted : d.Accepted
  runnable : d.Runnable catalogue
  reached : ∀ n ∈ d.nodes, n.nodeType ≠ Vocabulary.text NodeType.trigger → d.Reaches n.key

end Document

theorem NodeEntry.Stands.nodeType_eq_iff {workflow : WorkflowId} {n : NodeEntry}
    {made : String × Node} (h : n.Stands workflow made) {t : NodeType} :
    made.2.nodeType = t ↔ n.nodeType = Vocabulary.text t := by
  rw [← h.nodeType_eq]
  exact ⟨fun heq => by rw [heq], Vocabulary.text_injective _ _⟩

/-- What stands for an entry has no `Node.warnings` exactly if the entry is `Able`. -/
theorem NodeEntry.Stands.warnings_eq_nil_iff {catalogue : Catalogue} {workflow : WorkflowId}
    {n : NodeEntry} {made : String × Node} (h : n.Stands workflow made) :
    made.2.warnings catalogue = [] ↔ n.Able catalogue := by
  have haction : made.2.actionType = n.actionType := by
    rw [h.row_eq]
    rfl
  have hconfig : made.2.config = n.config := by
    rw [h.row_eq]
    rfl
  rw [Node.warnings_eq_nil_iff, h.nodeType_eq_iff, haction, hconfig]
  exact Iff.rfl

namespace ConnectionEntry.Stands

variable {workflow : WorkflowId} {nodes : List (String × Node)} {c : ConnectionEntry}
  {row : Connection} {key : String} {id : NodeId}

theorem source_eq_none_iff (h : c.Stands workflow nodes row) :
    c.source = none ↔ row.source = none := by
  have heq := h.source_eq
  cases hkey : c.source <;> cases hid : row.source <;> simp [hkey, hid] at heq ⊢

theorem exists_id (h : c.Stands workflow nodes row) (hkey : c.source = some key) :
    ∃ id, row.source = some id ∧ Document.idOf? nodes key = some id := by
  have heq := h.source_eq
  rw [hkey, Option.map_some] at heq
  obtain ⟨id, hid, hfound⟩ := Option.map_eq_some_iff.mp heq.symm
  exact ⟨id, hid, hfound.symm⟩

theorem exists_key (h : c.Stands workflow nodes row) (hid : row.source = some id) :
    ∃ key, c.source = some key ∧ Document.idOf? nodes key = some id := by
  have heq := h.source_eq
  rw [hid, Option.map_some] at heq
  exact Option.map_eq_some_iff.mp heq

end ConnectionEntry.Stands

/-- The graph of the workflow that was made. -/
def AuthoredDocument.graph (a : AuthoredDocument) (s : Storage) : Graph :=
  Graph.ofTables s.tables a.workflow.id

namespace Document.Depicted

variable {d : Document} {name : RowKind → Nat → Uuid} {a : AuthoredDocument} {s : Storage}
  {row : Connection} {key : String} {id : NodeId}

/-! ### The graph of a document -/

theorem member (h : d.Depicted name a s) :
    ∀ n ∈ s.tables.nodes, n.workflow = a.workflow.id ∧ n.deleted = false := by
  intro n hn
  rw [h.node_rows] at hn
  obtain ⟨e, he, rfl⟩ := List.mem_map.mp hn
  obtain ⟨entry, -, hstand⟩ := exists_of_mem_right h.nodes he
  rw [hstand.row_eq]
  exact ⟨rfl, rfl⟩

theorem listNodes_eq (h : d.Depicted name a s) :
    s.tables.listNodes a.workflow.id true = s.tables.nodes := by
  rw [Tables.listNodes, List.filter_eq_self]
  intro n hn
  simp [(h.member n hn).1]

theorem nodup_ids (h : d.Depicted name a s)
    (distinct : IdSupply.Distinct name d.nodes.length) :
    (s.tables.nodes.map Node.id).Nodup := by
  rw [IdSupply.Distinct, ← h.ids] at distinct
  rw [h.node_rows, List.map_map]
  exact distinct

theorem nodes_graph (h : d.Depicted name a s)
    (distinct : IdSupply.Distinct name d.nodes.length) :
    (a.graph s).nodes = a.nodes.map Prod.snd := by
  rw [AuthoredDocument.graph, Graph.ofTables, h.listNodes_eq,
    Graph.nodes_ofRows_of_nodup _ (fun n hn => (h.member n hn).2) (h.nodup_ids distinct),
    h.node_rows]

theorem ids_graph (h : d.Depicted name a s)
    (distinct : IdSupply.Distinct name d.nodes.length) :
    (a.graph s).ids = a.nodes.map fun e => e.2.id := by
  rw [Graph.ids, h.nodes_graph distinct, List.map_map]
  rfl

/-- The graph has `d.nodes.length` live nodes. -/
theorem length_ids_graph (h : d.Depicted name a s)
    (distinct : IdSupply.Distinct name d.nodes.length) :
    (a.graph s).ids.length = d.nodes.length := by
  rw [h.ids_graph distinct, List.length_map, h.nodes.length_eq]

theorem mem_connections_graph (h : d.Depicted name a s) :
    row ∈ (a.graph s).connections ↔ row ∈ s.tables.connections := by
  -- nothing has been deleted, and so no connection is hidden
  have htombs : Graph.tombstones s.tables.nodes = [] := by
    rw [Graph.tombstones, List.map_eq_nil_iff, List.filter_eq_nil_iff]
    intro n hn
    simp [(h.member n hn).2]
  have htouch : Graph.touches [] row = false := by
    cases hsource : row.source <;> simp [Graph.touches, hsource]
  rw [AuthoredDocument.graph, Graph.ofTables, Graph.mem_connections_ofRows, h.listNodes_eq, htombs,
    htouch, Tables.listConnections, List.mem_filter]
  refine ⟨fun hrow => hrow.1.1, fun hrow => ⟨⟨hrow, ?_⟩, rfl⟩⟩
  obtain ⟨c, -, hstand⟩ := exists_of_mem_right h.connections hrow
  simp [hstand.member]

theorem mem_ids_graph (h : d.Depicted name a s)
    (distinct : IdSupply.Distinct name d.nodes.length)
    (hid : idOf? a.nodes key = some id) : id ∈ (a.graph s).ids := by
  obtain ⟨n, hn, rfl⟩ := exists_mem_of_idOf? hid
  rw [h.ids_graph distinct]
  exact List.mem_map.mpr ⟨_, hn, rfl⟩

theorem anchored (h : d.Depicted name a s)
    (distinct : IdSupply.Distinct name d.nodes.length) :
    ∀ row ∈ (a.graph s).connections, row.target ∈ (a.graph s).ids := by
  intro row hrow
  obtain ⟨c, -, hstand⟩ := exists_of_mem_right h.connections (h.mem_connections_graph.mp hrow)
  exact h.mem_ids_graph distinct hstand.target_eq

/-! ### Keys and identifiers -/

def idAt (a : AuthoredDocument) (key : String) : NodeId := (idOf? a.nodes key).getD Uuid.nil

def keyAt (a : AuthoredDocument) (id : NodeId) : String := (a.keyOf? id).getD ""

theorem idAt_eq (hid : idOf? a.nodes key = some id) : idAt a key = id := by
  rw [idAt, hid, Option.getD_some]

/-- Under identifiers that differ, `keyOf?` undoes `idOf?`. -/
theorem keyOf?_eq (h : d.Depicted name a s)
    (distinct : IdSupply.Distinct name d.nodes.length)
    (hid : idOf? a.nodes key = some id) : a.keyOf? id = some key := by
  obtain ⟨n, hn, rfl⟩ := exists_mem_of_idOf? hid
  rw [IdSupply.Distinct, ← h.ids] at distinct
  have hsome : (a.nodes.find? fun e => e.2.id == n.id).isSome = true := by
    rw [List.find?_isSome]
    exact ⟨_, hn, by simp⟩
  obtain ⟨e, he⟩ := Option.isSome_iff_exists.mp hsome
  -- the row that is found has the identifier, and no other row has it
  have hfound : e.2.id = n.id := by simpa using List.find?_some he
  have hsame : e = (key, n) :=
    List.inj_on_of_nodup_map distinct (List.mem_of_find?_eq_some he) hn hfound
  rw [AuthoredDocument.keyOf?, he, hsame]
  rfl

theorem keyAt_eq (h : d.Depicted name a s)
    (distinct : IdSupply.Distinct name d.nodes.length)
    (hid : idOf? a.nodes key = some id) : keyAt a id = key := by
  rw [keyAt, h.keyOf?_eq distinct hid, Option.getD_some]

/-- Where the document `Leads` from key to key, `LiveEdge` leads from node to node. -/
theorem liveEdge_of_leads (h : d.Depicted name a s)
    (distinct : IdSupply.Distinct name d.nodes.length) (key key' : String)
    (hleads : d.Leads key key') : (a.graph s).LiveEdge (idAt a key) (idAt a key') := by
  obtain ⟨c, hc, hsource, rfl⟩ := hleads
  obtain ⟨row, hrow, hstand⟩ := exists_of_mem_left h.connections hc
  obtain ⟨id, hid, hfound⟩ := hstand.exists_id hsource
  have hedge : row ∈ (a.graph s).outgoing id :=
    List.mem_filter.mpr ⟨h.mem_connections_graph.mpr hrow, by simp [hid]⟩
  rw [idAt_eq hfound, idAt_eq hstand.target_eq]
  exact ⟨⟨row, hedge, rfl⟩, h.mem_ids_graph distinct hstand.target_eq⟩

/-- Where `LiveEdge` leads from node to node, the document `Leads` from key to key. -/
theorem leads_of_liveEdge (h : d.Depicted name a s)
    (distinct : IdSupply.Distinct name d.nodes.length) (id id' : NodeId)
    (hedge : (a.graph s).LiveEdge id id') : d.Leads (keyAt a id) (keyAt a id') := by
  obtain ⟨⟨row, hrow, rfl⟩, -⟩ := hedge
  obtain ⟨hrow, hsource⟩ := List.mem_filter.mp hrow
  obtain ⟨c, hc, hstand⟩ := exists_of_mem_right h.connections (h.mem_connections_graph.mp hrow)
  obtain ⟨key, hkey, hfound⟩ := hstand.exists_key (by simpa using hsource)
  rw [h.keyAt_eq distinct hfound, h.keyAt_eq distinct hstand.target_eq]
  exact ⟨c, hc, hkey, rfl⟩

/-! ### What can be run -/

theorem exists_startEdge_iff (h : d.Depicted name a s) {p : String → Prop} {q : NodeId → Prop}
    (hpq : ∀ key id, idOf? a.nodes key = some id → (p key ↔ q id)) :
    (∃ row ∈ (a.graph s).startEdges, q row.target) ↔
      ∃ c ∈ d.connections, c.source = none ∧ p c.target := by
  constructor
  · rintro ⟨row, hrow, hq⟩
    obtain ⟨hrow, hsource⟩ := List.mem_filter.mp hrow
    obtain ⟨c, hc, hstand⟩ := exists_of_mem_right h.connections (h.mem_connections_graph.mp hrow)
    exact ⟨c, hc, hstand.source_eq_none_iff.mpr (by simpa using hsource),
      (hpq _ _ hstand.target_eq).mpr hq⟩
  · rintro ⟨c, hc, hsource, hp⟩
    obtain ⟨row, hrow, hstand⟩ := exists_of_mem_left h.connections hc
    refine ⟨row, List.mem_filter.mpr ⟨h.mem_connections_graph.mpr hrow, ?_⟩,
      (hpq _ _ hstand.target_eq).mp hp⟩
    simp [hstand.source_eq_none_iff.mp hsource]

theorem startEdges_ne_nil_iff (h : d.Depicted name a s) :
    (a.graph s).startEdges ≠ [] ↔ ∃ c ∈ d.connections, c.source = none := by
  have hiff := h.exists_startEdge_iff (p := fun _ => True) (q := fun _ => True) fun _ _ _ => Iff.rfl
  simpa [List.eq_nil_iff_forall_not_mem] using hiff

theorem able_iff (h : d.Depicted name a s)
    (distinct : IdSupply.Distinct name d.nodes.length) (catalogue : Catalogue) :
    (∀ n ∈ (a.graph s).nodes, n.warnings catalogue = []) ↔ ∀ n ∈ d.nodes, n.Able catalogue := by
  rw [h.nodes_graph distinct, List.forall_mem_map]
  constructor
  · intro hable n hn
    obtain ⟨e, he, hstand⟩ := exists_of_mem_left h.nodes hn
    exact hstand.warnings_eq_nil_iff.mp (hable e he)
  · intro hable e he
    obtain ⟨n, hn, hstand⟩ := exists_of_mem_right h.nodes he
    exact hstand.warnings_eq_nil_iff.mpr (hable n hn)

theorem acyclic_iff (h : d.Depicted name a s)
    (distinct : IdSupply.Distinct name d.nodes.length) :
    (∀ id, ¬ Relation.TransGen (a.graph s).LiveEdge id id) ↔
      ∀ key, ¬ Relation.TransGen d.Leads key key :=
  ⟨fun hacyclic _ hback => hacyclic _ (hback.lift _ (h.liveEdge_of_leads distinct)),
    fun hacyclic _ hback => hacyclic _ (hback.lift _ (h.leads_of_liveEdge distinct))⟩

/-- The graph of a document is `Graph.Runnable` exactly if the document is. -/
theorem runnable_iff (h : d.Depicted name a s)
    (distinct : IdSupply.Distinct name d.nodes.length) (catalogue : Catalogue) :
    (a.graph s).Runnable catalogue ↔ d.Runnable catalogue := by
  constructor
  · rintro ⟨hstarted, -, hable, hacyclic⟩
    exact ⟨h.startEdges_ne_nil_iff.mp hstarted, (h.able_iff distinct catalogue).mp hable,
      (h.acyclic_iff distinct).mp hacyclic⟩
  · rintro ⟨hstarted, hable, hacyclic⟩
    exact ⟨h.startEdges_ne_nil_iff.mpr hstarted, h.anchored distinct,
      (h.able_iff distinct catalogue).mpr hable, (h.acyclic_iff distinct).mpr hacyclic⟩

/-- A node is in `reachable` exactly if the document `Reaches` its key. -/
theorem mem_reachable_iff (h : d.Depicted name a s)
    (distinct : IdSupply.Distinct name d.nodes.length) (hid : idOf? a.nodes key = some id) :
    id ∈ (a.graph s).reachable ↔ d.Reaches key := by
  rw [Graph.mem_reachable_iff]
  refine h.exists_startEdge_iff
    (p := fun key' => Relation.ReflTransGen d.Leads key' key)
    (q := fun id' => id' ∈ (a.graph s).ids ∧ Relation.ReflTransGen (a.graph s).LiveEdge id' id) ?_
  intro key' id' hid'
  constructor
  · intro hleads
    have hlift : Relation.ReflTransGen (a.graph s).LiveEdge (idAt a key') (idAt a key) :=
      hleads.lift _ (h.liveEdge_of_leads distinct)
    rw [idAt_eq hid, idAt_eq hid'] at hlift
    exact ⟨h.mem_ids_graph distinct hid', hlift⟩
  · rintro ⟨-, hleads⟩
    have hlift : Relation.ReflTransGen d.Leads (keyAt a id') (keyAt a id) :=
      hleads.lift _ (h.leads_of_liveEdge distinct)
    rwa [h.keyAt_eq distinct hid, h.keyAt_eq distinct hid'] at hlift

theorem reached_iff (h : d.Depicted name a s)
    (distinct : IdSupply.Distinct name d.nodes.length) :
    (∀ n ∈ (a.graph s).nodes, n.nodeType ≠ .trigger → n.id ∈ (a.graph s).reachable) ↔
      ∀ n ∈ d.nodes, n.nodeType ≠ Vocabulary.text NodeType.trigger → d.Reaches n.key := by
  have hkey : ∀ e ∈ a.nodes, ∀ n : NodeEntry, n.Stands a.workflow.id e →
      (e.2.id ∈ (a.graph s).reachable ↔ d.Reaches n.key) := by
    intro e he n hstand
    rw [← hstand.key_eq]
    exact h.mem_reachable_iff distinct (idOf?_of_mem h.distinct_keys he)
  rw [h.nodes_graph distinct, List.forall_mem_map]
  constructor
  · intro hreached n hn htype
    obtain ⟨e, he, hstand⟩ := exists_of_mem_left h.nodes hn
    exact (hkey e he n hstand).mp (hreached e he (mt hstand.nodeType_eq_iff.mp htype))
  · intro hreached e he htype
    obtain ⟨n, hn, hstand⟩ := exists_of_mem_right h.nodes he
    exact (hkey e he n hstand).mpr (hreached n hn (mt hstand.nodeType_eq_iff.mpr htype))

/-- The graph of a document has no warnings exactly if the document is `Runnable` and `Reaches`
every node but triggers. -/
theorem warnings_eq_nil_iff (h : d.Depicted name a s)
    (distinct : IdSupply.Distinct name d.nodes.length) (catalogue : Catalogue)
    {components : List (List Graph.Place)} (listed : (a.graph s).AreComponents components) :
    (a.graph s).warnings catalogue components = [] ↔ d.Runnable catalogue ∧
      ∀ n ∈ d.nodes, n.nodeType ≠ Vocabulary.text NodeType.trigger → d.Reaches n.key := by
  rw [Graph.warnings_eq_nil_iff listed (Graph.nodup_ids_ofRows _ _), h.startEdges_ne_nil_iff,
    h.able_iff distinct, h.acyclic_iff distinct, h.reached_iff distinct]
  constructor
  · rintro ⟨hstarted, hable, hacyclic, hreached⟩
    exact ⟨⟨hstarted, hable, hacyclic⟩, hreached⟩
  · rintro ⟨⟨hstarted, hable, hacyclic⟩, hreached⟩
    exact ⟨hstarted, hable, hacyclic, hreached⟩

end Document.Depicted

end TriggerFlow
