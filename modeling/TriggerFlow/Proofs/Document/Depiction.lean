import Mathlib.Data.List.Forall2
import Mathlib.Data.List.Nodup
import TriggerFlow.Document.Authored
import TriggerFlow.Proofs.Authoring.Calm
/-!
# What becomes of a document

Whether a document is accepted depends on what it says alone (`Document.Accepted`): in an empty
store without outages `Document.author` succeeds if and only if it is accepted, whatever identifiers
the store gives out (`author_of_accepted`, `depicted_of_author`).  The store then holds it entry by
entry (`Document.Depicted`).
-/

namespace TriggerFlow

/-! ### Identifiers that are drawn -/

/-- The supply names identifiers by `name` and has given out `count` nodes. -/
structure IdSupply.Draws (ids : IdSupply) (name : RowKind → Nat → Uuid) (count : Nat) : Prop where
  name_eq : ids.name = name
  unreserved : ids.reserved = none
  drawn_eq : ids.drawn .node = count

namespace IdSupply.Draws

variable {ids : IdSupply} {name : RowKind → Nat → Uuid} {count : Nat}

theorem ofNames (name : RowKind → Nat → Uuid) : (IdSupply.ofNames name).Draws name 0 :=
  ⟨rfl, rfl, rfl⟩

theorem next_eq (h : ids.Draws name count) (kind : RowKind) :
    ids.next kind = (name kind (ids.drawn kind + 1),
      { ids with drawn := fun k => if k = kind then ids.drawn kind + 1 else ids.drawn k }) := by
  rw [IdSupply.next, h.unreserved, h.name_eq]

theorem node_id (h : ids.Draws name count) : (ids.next .node).1 = name .node (count + 1) := by
  rw [h.next_eq, h.drawn_eq]

theorem node (h : ids.Draws name count) : (ids.next .node).2.Draws name (count + 1) := by
  rw [h.next_eq]
  exact ⟨h.name_eq, h.unreserved, by simp [h.drawn_eq]⟩

theorem other (h : ids.Draws name count) {kind : RowKind} (hkind : .node ≠ kind) :
    (ids.next kind).2.Draws name count := by
  rw [h.next_eq]
  exact ⟨h.name_eq, h.unreserved, by simp [h.drawn_eq, hkind]⟩

end IdSupply.Draws

/-- The identifiers of the first `count` nodes differ from one another. -/
def IdSupply.Distinct (name : RowKind → Nat → Uuid) (count : Nat) : Prop :=
  ((List.range' 1 count).map (name .node)).Nodup

instance (name : RowKind → Nat → Uuid) (count : Nat) : Decidable (IdSupply.Distinct name count) :=
  inferInstanceAs (Decidable (List.Nodup _))

/-! ### Accepted documents -/

/-- The entry passes the rules of `Authoring.create`. -/
structure WorkflowEntry.Accepted (w : WorkflowEntry) : Prop where
  checked : EnteredField.check (Authoring.workflowFields w.toInput) = .ok ()
  triggerType : ∃ t : TriggerType, Vocabulary.text t = w.triggerType
  status : ∃ status : Option WorkflowStatus, status.map Vocabulary.text = w.status

/-- The entry passes the rules of `Authoring.createNode`. -/
structure NodeEntry.Accepted (n : NodeEntry) : Prop where
  checked : EnteredField.check (Authoring.nodeFields n.toInput) = .ok ()
  nodeType : ∃ t : NodeType, Vocabulary.text t = n.nodeType

/-- The entry passes the rules of `Authoring.createConnection`, and its ends are among `keys`. -/
structure ConnectionEntry.Accepted (keys : List String) (c : ConnectionEntry) : Prop where
  checked : EnteredField.check (Authoring.connectionFields ⟨none, none, c.conditionType, none⟩)
    = .ok ()
  source : ∀ key, c.source = some key → key ∈ keys
  target : c.target ∈ keys
  branch : ∃ branch : Option ConditionType, branch.map Vocabulary.text = c.conditionType

namespace Document

def keys (d : Document) : List String := d.nodes.map NodeEntry.key

/-- All entries are `Accepted`, and no two nodes have the same key. -/
structure Accepted (d : Document) : Prop where
  workflow : d.workflow.Accepted
  nodes : ∀ n ∈ d.nodes, n.Accepted
  distinct : d.keys.Nodup
  connections : ∀ c ∈ d.connections, c.Accepted d.keys

end Document

/-! ### What stands for an entry -/

/-- The row, kept under the key of the entry, is `nodeRow` of it. -/
structure NodeEntry.Stands (workflow : WorkflowId) (n : NodeEntry) (made : String × Node) :
    Prop where
  key_eq : made.1 = n.key
  nodeType_eq : Vocabulary.text made.2.nodeType = n.nodeType
  row_eq : made.2 = Authoring.nodeRow n.toInput made.2.id workflow made.2.nodeType

def Document.idOf? (nodes : List (String × Node)) (key : String) : Option NodeId :=
  (nodes.lookup key).map Node.id

/-- The row was made for the entry of a connection, between `nodes` that were made before. -/
structure ConnectionEntry.Stands (workflow : WorkflowId) (nodes : List (String × Node))
    (c : ConnectionEntry) (row : Connection) : Prop where
  member : row.workflow = workflow
  source_eq : c.source.map (Document.idOf? nodes) = row.source.map some
  target_eq : Document.idOf? nodes c.target = some row.target
  branch_eq : row.branch.map Vocabulary.text = c.conditionType
  priority_eq : row.priority = c.priority

/-- The store `s` holds the document and nothing else, under identifiers that were drawn by number.
-/
structure Document.Depicted (d : Document) (name : RowKind → Nat → Uuid) (a : AuthoredDocument)
    (s : Storage) : Prop where
  calm : s.outages = []
  distinct_keys : (a.nodes.map Prod.fst).Nodup
  nodes : List.Forall₂ (NodeEntry.Stands a.workflow.id) d.nodes a.nodes
  ids : a.nodes.map (fun e => e.2.id) = (List.range' 1 d.nodes.length).map (name .node)
  node_rows : s.tables.nodes = a.nodes.map Prod.snd
  connections : List.Forall₂ (ConnectionEntry.Stands a.workflow.id a.nodes) d.connections
    s.tables.connections
  executions : s.tables.executions = []

namespace Document

open Storage Authoring

variable {α : Type} {s s' : Storage} {w : Workflow} {name : RowKind → Nat → Uuid} {count : Nat}
  {made all nodes : List (String × Node)} {ns : List NodeEntry} {cs : List ConnectionEntry}

theorem entry_eq_ok_iff {refusal : AuthoringError → DocumentError} {work : Authoring.Work α}
    {a : α} : entry refusal work s = .ok a s' ↔ work s = .ok a s' := by
  unfold entry
  cases work s <;> simp

/-! ### Nodes -/

/-- The step of `authorNodes`: the node is made, its key is new, and then the others are made. -/
theorem authorNodes_cons_eq_ok_iff {n : NodeEntry} :
    authorNodes w made (n :: ns) s = .ok all s' ↔
      ∃ row s₁, createNode w n.toInput s = .ok row s₁ ∧ n.key ∉ made.map Prod.fst ∧
        authorNodes w (made ++ [(n.key, row)]) ns s₁ = .ok all s' := by
  rw [authorNodes, bind_eq_ok_iff]
  simp only [entry_eq_ok_iff]
  refine exists_congr fun row => exists_congr fun s₁ => and_congr_right fun _ => ?_
  have htaken : (made.any fun e => e.1 == n.key) = true ↔ n.key ∈ made.map Prod.fst := by
    simp [List.any_eq_true]
  by_cases hkey : n.key ∈ made.map Prod.fst
  · rw [if_pos (htaken.mpr hkey), bind_apply, throw_apply]
    simp [hkey]
  · rw [if_neg (mt htaken.mp hkey)]
    exact (and_iff_right hkey).symm

/-- What `authorNodes` has made of the entries `ns` stands for them, and they were accepted, under
keys that differ. -/
theorem authorNodes_eq_ok (calm : s.outages = []) (draws : s.ids.Draws name count)
    (h : authorNodes w made ns s = .ok all s') :
    ∃ new, all = made ++ new ∧ List.Forall₂ (NodeEntry.Stands w.id) ns new ∧
      (∀ n ∈ ns, n.Accepted) ∧ (∀ n ∈ ns, n.key ∉ made.map Prod.fst) ∧
      (ns.map NodeEntry.key).Nodup ∧
      new.map (fun e => e.2.id) = (List.range' (count + 1) ns.length).map (name .node) ∧
      s'.outages = [] ∧ s'.ids.Draws name (count + ns.length) ∧
      s'.tables = { s.tables with nodes := s.tables.nodes ++ new.map Prod.snd } := by
  induction ns generalizing made s count with
  | nil =>
    simp only [authorNodes, pure_apply, EStateM.Result.ok.injEq] at h
    obtain ⟨rfl, rfl⟩ := h
    exact ⟨[], by simp, .nil, by simp, by simp, by simp, by simp, calm, draws, by simp⟩
  | cons n ns ih =>
    obtain ⟨row, s₁, hcreate, hkey, hrest⟩ := authorNodes_cons_eq_ok_iff.mp h
    obtain ⟨hcheck, -, ⟨nodeType, htype, rfl⟩, rfl⟩ := (createNode_eq_ok_iff calm).mp hcreate
    -- the rest is made in a store with one row more, after one identifier more
    obtain ⟨new, rfl, hstand, haccept, hkeys, hnodup, hids, hcalm, hdraws, htables⟩ :=
      ih (s := s.addNode _) calm draws.node hrest
    have htype : Vocabulary.text nodeType = n.nodeType := (Option.some.inj htype).symm
    refine ⟨(n.key, nodeRow n.toInput (s.ids.next .node).1 w.id nodeType) :: new, by simp,
      .cons ⟨rfl, htype, rfl⟩ hstand, ?_, ?_, ?_, ?_, hcalm, ?_, ?_⟩
    · exact List.forall_mem_cons.mpr ⟨⟨hcheck, nodeType, htype⟩, haccept⟩
    · refine List.forall_mem_cons.mpr ⟨hkey, fun m hm hmade => hkeys m hm ?_⟩
      rw [List.map_append]
      exact List.mem_append_left _ hmade
    · refine List.nodup_cons.mpr ⟨fun hmem => ?_, hnodup⟩
      obtain ⟨m, hm, heq⟩ := List.mem_map.mp hmem
      apply hkeys m hm
      simp [heq]
    · rw [List.map_cons, hids, List.length_cons, List.range'_succ, List.map_cons, nodeRow,
        draws.node_id]
    · rw [List.length_cons, ← Nat.add_assoc, Nat.add_right_comm]
      exact hdraws
    · rw [htables]
      simp [addNode]

/-- Accepted entries under keys that differ are made by `authorNodes`. -/
theorem authorNodes_of_accepted (calm : s.outages = [])
    (owner : ∃ w' ∈ s.tables.workflows, w'.id = w.id) (accepted : ∀ n ∈ ns, n.Accepted)
    (distinct : (made.map Prod.fst ++ ns.map NodeEntry.key).Nodup) :
    ∃ all s', authorNodes w made ns s = .ok all s' := by
  induction ns generalizing made s with
  | nil => exact ⟨made, s, rfl⟩
  | cons n ns ih =>
    obtain ⟨⟨hcheck, nodeType, htype⟩, haccept⟩ := List.forall_mem_cons.mp accepted
    set row := nodeRow n.toInput (s.ids.next .node).1 w.id nodeType with hrow
    have hcreate : createNode w n.toInput s = .ok row (s.addNode row) := by
      rw [createNode_eq_ok_iff calm]
      exact ⟨hcheck, owner, ⟨nodeType, congrArg some htype.symm, rfl⟩, rfl⟩
    have hkey : n.key ∉ made.map Prod.fst := by
      intro hmem
      obtain ⟨-, -, hapart⟩ := List.nodup_append.mp distinct
      exact hapart _ hmem _ (List.mem_cons_self ..) rfl
    have hdistinct : ((made ++ [(n.key, row)]).map Prod.fst ++ ns.map NodeEntry.key).Nodup := by
      simpa using distinct
    obtain ⟨all, s', hrest⟩ := ih (s := s.addNode row) calm owner haccept hdistinct
    exact ⟨all, s', authorNodes_cons_eq_ok_iff.mpr ⟨row, _, hcreate, hkey, hrest⟩⟩

/-! ### What was made -/

theorem map_fst_of_stands {workflow : WorkflowId}
    (h : List.Forall₂ (NodeEntry.Stands workflow) ns nodes) :
    nodes.map Prod.fst = ns.map NodeEntry.key := by
  induction h with
  | nil => rfl
  | cons hstand _ ih => rw [List.map_cons, List.map_cons, hstand.key_eq, ih]

theorem exists_of_mem_right {β : Type} {R : α → β → Prop} {as : List α} {bs : List β} {b : β}
    (h : List.Forall₂ R as bs) (hb : b ∈ bs) : ∃ a ∈ as, R a b := by
  induction h with
  | nil => simp at hb
  | cons hab _ ih =>
    rcases List.mem_cons.mp hb with rfl | hb
    · exact ⟨_, List.mem_cons_self .., hab⟩
    · obtain ⟨a, ha, hab⟩ := ih hb
      exact ⟨a, List.mem_cons_of_mem _ ha, hab⟩

theorem exists_of_mem_left {β : Type} {R : α → β → Prop} {as : List α} {bs : List β} {a : α}
    (h : List.Forall₂ R as bs) (ha : a ∈ as) : ∃ b ∈ bs, R a b :=
  exists_of_mem_right (R := flip R) h.flip ha

theorem exists_mem_of_idOf? {key : String} {id : NodeId} (h : idOf? nodes key = some id) :
    ∃ n, (key, n) ∈ nodes ∧ n.id = id := by
  obtain ⟨n, hn, rfl⟩ := Option.map_eq_some_iff.mp h
  obtain ⟨before, after, rfl, -⟩ := List.lookup_eq_some_iff.mp hn
  exact ⟨n, by simp, rfl⟩

theorem idOf?_of_mem (hkeys : (nodes.map Prod.fst).Nodup) {e : String × Node} (he : e ∈ nodes) :
    idOf? nodes e.1 = some e.2.id := by
  have hsome : (nodes.lookup e.1).isSome = true := List.lookup_isSome_iff.mpr ⟨e, he, by simp⟩
  obtain ⟨n, hn⟩ := Option.isSome_iff_exists.mp hsome
  obtain ⟨before, after, heq, -⟩ := List.lookup_eq_some_iff.mp hn
  have hmem : (e.1, n) ∈ nodes := by simp [heq]
  have hsame : (e.1, n) = e := List.inj_on_of_nodup_map hkeys hmem he rfl
  rw [idOf?, hn, ← hsame]
  rfl

theorem isThere_of_stands {t : Tables} (h : List.Forall₂ (NodeEntry.Stands w.id) ns nodes)
    (hrows : t.nodes = nodes.map Prod.snd) {key : String} {id : NodeId}
    (hid : idOf? nodes key = some id) : IsThere t w id := by
  have hmade : ∀ n ∈ t.nodes, n.workflow = w.id ∧ n.deleted = false := by
    intro n hn
    rw [hrows] at hn
    obtain ⟨e, he, rfl⟩ := List.mem_map.mp hn
    obtain ⟨entry, -, hstand⟩ := exists_of_mem_right h he
    rw [hstand.row_eq]
    exact ⟨rfl, rfl⟩
  obtain ⟨n, hn, hnid⟩ := exists_mem_of_idOf? hid
  have hmem : n ∈ t.nodes := by
    rw [hrows]
    exact List.mem_map_of_mem hn
  have hsome : (t.getNode id false).isSome = true := by
    rw [Tables.getNode, List.find?_isSome]
    exact ⟨n, hmem, by simp [hnid, (hmade n hmem).2]⟩
  obtain ⟨found, hfound⟩ := Option.isSome_iff_exists.mp hsome
  exact ⟨found, hfound, (hmade found (Tables.getNode_eq_some hfound).1).1⟩

/-! ### Connections -/

theorem resolve_eq_ok_iff {key : String} {id : NodeId} :
    resolve nodes key s = .ok id s' ↔ idOf? nodes key = some id ∧ s' = s := by
  unfold resolve idOf?
  cases nodes.lookup key <;> simp [eq_comm]

theorem mapM_resolve_eq_ok_iff {source : Option String} {o : Option NodeId} :
    source.mapM (resolve nodes) s = .ok o s' ↔
      source.map (idOf? nodes) = o.map some ∧ s' = s := by
  cases source with
  | none =>
    show (EStateM.Result.ok none s : EStateM.Result DocumentError Storage (Option NodeId))
      = .ok o s' ↔ _
    rw [EStateM.Result.ok.injEq, Option.map_none, @eq_comm _ none, @eq_comm _ none,
      Option.map_eq_none_iff, @eq_comm _ s]
  | some key =>
    show ((resolve nodes key >>= fun id => pure (some id)) s = _) ↔ _
    rw [bind_eq_ok_iff]
    simp only [resolve_eq_ok_iff, pure_apply, EStateM.Result.ok.injEq, Option.map_some]
    constructor
    · rintro ⟨id, s₁, ⟨hid, rfl⟩, rfl, rfl⟩
      exact ⟨by rw [hid, Option.map_some], rfl⟩
    · rintro ⟨hid, rfl⟩
      cases o with
      | none => simp at hid
      | some id => exact ⟨id, s', ⟨Option.some.inj hid, rfl⟩, rfl, rfl⟩

theorem authorConnections_cons_eq_ok_iff {c : ConnectionEntry} {u : Unit} :
    authorConnections w nodes (c :: cs) s = .ok u s' ↔
      ∃ source target row s₁, c.source.map (idOf? nodes) = Option.map some source ∧
        idOf? nodes c.target = some target ∧
        createConnection w
          { source, target := some target, conditionType := c.conditionType,
            priority := some c.priority } s = .ok row s₁ ∧
        authorConnections w nodes cs s₁ = .ok u s' := by
  rw [authorConnections, bind_eq_ok_iff]
  simp only [bind_eq_ok_iff, mapM_resolve_eq_ok_iff, resolve_eq_ok_iff, entry_eq_ok_iff]
  constructor
  · rintro ⟨source, _, ⟨hsource, rfl⟩, target, _, ⟨htarget, rfl⟩, row, s₁, hcreate, hrest⟩
    exact ⟨source, target, row, s₁, hsource, htarget, hcreate, hrest⟩
  · rintro ⟨source, target, row, s₁, hsource, htarget, hcreate, hrest⟩
    exact ⟨source, s, ⟨hsource, rfl⟩, target, s, ⟨htarget, rfl⟩, row, s₁, hcreate, hrest⟩

theorem exists_idOf?_iff {key : String} :
    (∃ id, idOf? nodes key = some id) ↔ key ∈ nodes.map Prod.fst := by
  rw [← Option.isSome_iff_exists, idOf?, Option.isSome_map, List.lookup_isSome_iff]
  simp only [List.mem_map, beq_iff_eq, @eq_comm _ key]

/-- What `authorConnections` has made of the entries `cs` stands for them, and they were accepted.
-/
theorem authorConnections_eq_ok (calm : s.outages = []) {u : Unit}
    (h : authorConnections w nodes cs s = .ok u s') :
    ∃ rows, List.Forall₂ (ConnectionEntry.Stands w.id nodes) cs rows ∧
      (∀ c ∈ cs, c.Accepted (nodes.map Prod.fst)) ∧ s'.outages = [] ∧
      s'.tables = { s.tables with connections := s.tables.connections ++ rows } := by
  -- induction on the entries, each of which adds one row at the end
  induction cs generalizing s with
  | nil =>
    simp only [authorConnections, pure_apply, EStateM.Result.ok.injEq] at h
    obtain ⟨-, rfl⟩ := h
    exact ⟨[], .nil, by simp, calm, by simp⟩
  | cons c cs ih =>
    obtain ⟨source, target, row, s₁, hsource, htarget, hcreate, hrest⟩ :=
      authorConnections_cons_eq_ok_iff.mp h
    obtain ⟨hcheck, -, -, ⟨target', branch, htarget', -, hwords, rfl⟩, rfl⟩ :=
      (createConnection_eq_ok_iff calm).mp hcreate
    obtain rfl : target = target' := Option.some.inj htarget'
    obtain ⟨rows, hstand, haccept, hcalm, htables⟩ := ih (s := s.addConnection _) calm hrest
    refine ⟨connectionRow ⟨source, some target, c.conditionType, some c.priority⟩
        (s.ids.next .connection).1 w.id target branch :: rows,
      .cons ⟨rfl, hsource, htarget, hwords, rfl⟩ hstand, List.forall_mem_cons.mpr
        ⟨⟨hcheck, ?_, ?_, branch, hwords⟩, haccept⟩, hcalm, ?_⟩
    · intro key hkey
      rw [hkey, Option.map_some] at hsource
      obtain ⟨id, -, hid⟩ := Option.map_eq_some_iff.mp hsource.symm
      exact exists_idOf?_iff.mp ⟨id, hid.symm⟩
    · exact exists_idOf?_iff.mp ⟨target, htarget⟩
    · rw [htables]
      simp [addConnection]

/-- Accepted entries are made by `authorConnections`, if the nodes that were made before are there.
-/
theorem authorConnections_of_accepted (calm : s.outages = [])
    (owner : ∃ w' ∈ s.tables.workflows, w'.id = w.id)
    (there : ∀ key id, idOf? nodes key = some id → IsThere s.tables w id)
    (accepted : ∀ c ∈ cs, c.Accepted (nodes.map Prod.fst)) :
    ∃ s', authorConnections w nodes cs s = .ok () s' := by
  induction cs generalizing s with
  | nil => exact ⟨s, rfl⟩
  | cons c cs ih =>
    obtain ⟨⟨hcheck, hsource, htarget, branch, hwords⟩, haccept⟩ :=
      List.forall_mem_cons.mp accepted
    obtain ⟨target, htarget⟩ := exists_idOf?_iff.mpr htarget
    -- a key that is given is that of a node; no key stands for the trigger
    obtain ⟨source, hsource⟩ : ∃ source : Option NodeId,
        c.source.map (idOf? nodes) = source.map some := by
      cases hkey : c.source with
      | none => exact ⟨none, rfl⟩
      | some key =>
        obtain ⟨id, hid⟩ := exists_idOf?_iff.mpr (hsource key hkey)
        exact ⟨some id, by rw [Option.map_some, hid, Option.map_some]⟩
    have hthere : ∀ id, source = some id → IsThere s.tables w id := by
      rintro id rfl
      obtain ⟨key, -, hid⟩ := Option.map_eq_some_iff.mp hsource
      exact there key id hid
    have hends := there _ _ htarget
    have hcreate : createConnection w ⟨source, some target, c.conditionType, some c.priority⟩ s
        = .ok _ _ := (createConnection_eq_ok_iff calm).mpr
      ⟨hcheck, owner, hthere, ⟨target, branch, rfl, hends, hwords, rfl⟩, rfl⟩
    obtain ⟨s', hrest⟩ := ih (s := s.addConnection _) calm owner there haccept
    exact ⟨s', authorConnections_cons_eq_ok_iff.mpr
      ⟨source, target, _, _, hsource, htarget, hcreate, hrest⟩⟩

/-! ### Whole documents -/

theorem author_eq_ok_iff {d : Document} {organization : OrganizationId} {user : UserId}
    {a : AuthoredDocument} :
    d.author organization user s = .ok a s' ↔
      ∃ s₁ s₂, create d.workflow.toInput organization user s = .ok a.workflow s₁ ∧
        authorNodes a.workflow [] d.nodes s₁ = .ok a.nodes s₂ ∧
        authorConnections a.workflow a.nodes d.connections s₂ = .ok () s' := by
  rw [author, bind_eq_ok_iff]
  simp only [bind_eq_ok_iff, entry_eq_ok_iff, pure_apply, EStateM.Result.ok.injEq]
  constructor
  · rintro ⟨w, s₁, hcreate, nodes, s₂, hnodes, u, s₃, hconnections, rfl, rfl⟩
    exact ⟨s₁, s₂, hcreate, hnodes, hconnections⟩
  · rintro ⟨s₁, s₂, hcreate, hnodes, hconnections⟩
    exact ⟨_, s₁, hcreate, _, s₂, hnodes, (), s', hconnections, rfl, rfl⟩

variable {d : Document} {a : AuthoredDocument} {clock : Timestamp}
  {organization : OrganizationId} {user : UserId}

theorem draws_addWorkflow (name : RowKind → Nat → Uuid) (clock : Timestamp) (w : Workflow) :
    ((Storage.fresh (.ofNames name) clock).addWorkflow w).ids.Draws name 0 :=
  (IdSupply.Draws.ofNames name).other (by simp)

/-- A document that is put into an empty store was `Accepted`, and the store holds it as `Depicted`.
-/
theorem depicted_of_author
    (h : d.author organization user (.fresh (.ofNames name) clock) = .ok a s') :
    d.Accepted ∧ d.Depicted name a s' := by
  obtain ⟨s₁, s₂, hcreate, hnodes, hconnections⟩ := author_eq_ok_iff.mp h
  obtain ⟨hcheck, -, ⟨_, triggerType, status, -, htrigger, hstatus, -⟩, rfl⟩ :=
    (create_eq_ok_iff rfl).mp hcreate
  obtain ⟨new, hnew, hstand, haccept, -, hnodup, hids, hcalm, -, htables⟩ :=
    authorNodes_eq_ok rfl (draws_addWorkflow name clock a.workflow) hnodes
  rw [List.nil_append] at hnew
  subst hnew
  obtain ⟨rows, hrows, haccept', hcalm', htables'⟩ := authorConnections_eq_ok hcalm hconnections
  rw [map_fst_of_stands hstand] at haccept'
  have hworkflow : d.workflow.Accepted :=
    ⟨hcheck, ⟨triggerType, (Option.some.inj htrigger).symm⟩, status, hstatus⟩
  refine ⟨⟨hworkflow, haccept, hnodup, haccept'⟩, hcalm', ?_, hstand, ?_, ?_, ?_, ?_⟩
  · rwa [map_fst_of_stands hstand]
  · rwa [Nat.zero_add] at hids
  all_goals rw [htables', htables]
  · rfl
  · exact hrows
  · rfl

/-- An accepted document is put into an empty store, whatever identifiers `name` gives out. -/
theorem author_of_accepted (accepted : d.Accepted) (name : RowKind → Nat → Uuid)
    (clock : Timestamp) (organization : OrganizationId) (user : UserId) :
    ∃ a s', d.author organization user (.fresh (.ofNames name) clock) = .ok a s' := by
  obtain ⟨⟨hcheck, ⟨triggerType, htrigger⟩, status, hstatus⟩, hnodes, hdistinct, hconnections⟩ :=
    accepted
  -- the workflow
  set s := Storage.fresh (.ofNames name) clock with hs
  set w := workflowRow d.workflow.toInput (s.ids.next .workflow).1 organization user
    d.workflow.name triggerType (status.getD .draft) s.clock with hw
  have hcreate : create d.workflow.toInput organization user s = .ok w (s.addWorkflow w) :=
    (create_eq_ok_iff rfl).mpr ⟨hcheck, by simp [hs, Storage.fresh, Tables.empty],
      ⟨_, triggerType, status, rfl, congrArg some htrigger.symm, hstatus, rfl⟩, rfl⟩
  have howner : ∃ w' ∈ (s.addWorkflow w).tables.workflows, w'.id = w.id :=
    ⟨w, by simp [addWorkflow], rfl⟩
  -- its nodes
  have hnodup : (([] : List (String × Node)).map Prod.fst ++ d.nodes.map NodeEntry.key).Nodup := by
    simpa [keys] using hdistinct
  obtain ⟨nodes, s₂, hauthored⟩ := authorNodes_of_accepted rfl howner hnodes hnodup
  obtain ⟨new, hnew, hstand, -, -, -, -, hcalm, -, htables⟩ :=
    authorNodes_eq_ok rfl (draws_addWorkflow name clock w) hauthored
  rw [List.nil_append] at hnew
  subst hnew
  -- the connections between them
  have howner₂ : ∃ w' ∈ s₂.tables.workflows, w'.id = w.id := by
    rw [htables]
    exact howner
  have hthere : ∀ key id, idOf? nodes key = some id → IsThere s₂.tables w id :=
    fun key id hid => isThere_of_stands hstand (by rw [htables]; rfl) hid
  obtain ⟨s', hconnected⟩ := authorConnections_of_accepted hcalm howner₂ hthere
    (by rwa [map_fst_of_stands hstand])
  exact ⟨⟨w, nodes⟩, s', author_eq_ok_iff.mpr ⟨_, s₂, hcreate, hauthored, hconnected⟩⟩

end Document

end TriggerFlow
