import TriggerFlow.Proofs.Authoring.Effects
/-!
# What authors may do in a store without outages

In a store without outages an operation that makes a row is refused only for what is entered, or
because it refers to rows that are not there.  For each of the three operations it is said exactly
when it succeeds, with what row, and in what store (`create_eq_ok_iff`, `createNode_eq_ok_iff`,
`createConnection_eq_ok_iff`).
-/

namespace TriggerFlow

namespace Storage

variable {s s' : Storage}

/-! ### Rows are added -/

/-- The store with `row` at the end of its workflows, and the identifier given out. -/
def addWorkflow (s : Storage) (row : Workflow) : Storage :=
  { s with
    ids := (s.ids.next .workflow).2
    tables := { s.tables with workflows := s.tables.workflows ++ [row] } }

/-- The store with `row` at the end of its nodes, and the identifier given out. -/
def addNode (s : Storage) (row : Node) : Storage :=
  { s with
    ids := (s.ids.next .node).2
    tables := { s.tables with nodes := s.tables.nodes ++ [row] } }

/-- The store with `row` at the end of its connections, and the identifier given out. -/
def addConnection (s : Storage) (row : Connection) : Storage :=
  { s with
    ids := (s.ids.next .connection).2
    tables := { s.tables with connections := s.tables.connections ++ [row] } }

theorem insertWorkflow_eq_ok_iff (calm : s.outages = []) {row w : Workflow} :
    insertWorkflow row s = .ok w s' ↔
      (∀ w' ∈ s.tables.workflows, w'.id ≠ (s.ids.next .workflow).1) ∧
      w = { row with id := (s.ids.next .workflow).1 } ∧ s' = s.addWorkflow w := by
  refine (insert_eq_ok_iff calm (g := fun id t => t.insertWorkflow { row with id })).trans ?_
  constructor
  · rintro ⟨t, h, rfl⟩
    obtain ⟨rfl, hnew, rfl⟩ := Tables.insertWorkflow_eq_ok h
    exact ⟨hnew, rfl, rfl⟩
  · rintro ⟨hnew, rfl, rfl⟩
    refine ⟨_, ?_, rfl⟩
    rw [Tables.insertWorkflow, if_neg (by simpa using hnew)]

theorem insertNode_eq_ok_iff (calm : s.outages = []) {row n : Node} :
    insertNode row s = .ok n s' ↔
      (∃ w ∈ s.tables.workflows, w.id = row.workflow) ∧
      n = { row with id := (s.ids.next .node).1 } ∧ s' = s.addNode n := by
  refine (insert_eq_ok_iff calm (g := fun id t => t.insertNode { row with id })).trans ?_
  constructor
  · rintro ⟨t, h, rfl⟩
    obtain ⟨rfl, howner, rfl⟩ := Tables.insertNode_eq_ok h
    exact ⟨howner, rfl, rfl⟩
  · rintro ⟨howner, rfl, rfl⟩
    refine ⟨_, ?_, rfl⟩
    rw [Tables.insertNode, if_pos (by simpa using howner)]

theorem insertConnection_eq_ok_iff (calm : s.outages = []) {row c : Connection} :
    insertConnection row s = .ok c s' ↔
      (∃ w ∈ s.tables.workflows, w.id = row.workflow) ∧
      c = { row with id := (s.ids.next .connection).1 } ∧ s' = s.addConnection c := by
  refine (insert_eq_ok_iff calm (g := fun id t => t.insertConnection { row with id })).trans ?_
  constructor
  · rintro ⟨t, h, rfl⟩
    obtain ⟨rfl, howner, rfl⟩ := Tables.insertConnection_eq_ok h
    exact ⟨howner, rfl, rfl⟩
  · rintro ⟨howner, rfl, rfl⟩
    refine ⟨_, ?_, rfl⟩
    rw [Tables.insertConnection, if_pos (by simpa using howner)]

/-! ### Rows are changed -/

theorem updateWorkflow_of_calm (calm : s.outages = []) {row : Workflow}
    (hrow : ∃ w ∈ s.tables.workflows, w.id = row.id) :
    ∃ w s', updateWorkflow row s = .ok w s' := by
  obtain ⟨w, hw, hid⟩ := hrow
  have hsome : (s.tables.getWorkflow row.id true).isSome = true :=
    List.find?_isSome.mpr ⟨w, hw, by simpa using hid⟩
  obtain ⟨stored, hfound⟩ := Option.isSome_iff_exists.mp hsome
  rw [updateWorkflow, bind_of_ok (attempt_of_calm calm _), change, Tables.updateWorkflow, hfound]
  exact ⟨_, _, rfl⟩

theorem updateNode_of_calm (calm : s.outages = []) {row : Node}
    (hrow : ∃ n ∈ s.tables.nodes, n.id = row.id) : ∃ n s', updateNode row s = .ok n s' := by
  obtain ⟨n, hn, hid⟩ := hrow
  have hsome : (s.tables.getNode row.id true).isSome = true :=
    List.find?_isSome.mpr ⟨n, hn, by simpa using hid⟩
  obtain ⟨stored, hfound⟩ := Option.isSome_iff_exists.mp hsome
  rw [updateNode, bind_of_ok (attempt_of_calm calm _), change, Tables.updateNode, hfound]
  exact ⟨_, _, rfl⟩

end Storage

namespace Authoring

open Storage

variable {α : Type} {s s' : Storage}

/-! ### Parts of operations -/

theorem access_eq_ok_iff {a : Access α} {v : α} : access a s = .ok v s' ↔ a s = .ok v s' := by
  refine ⟨access_eq_ok, fun h => ?_⟩
  rw [access, h]

/-- A text is read as what it stands for, and `otherwise` is kept where there is none. -/
theorem parseOr_of_map [Vocabulary α] {o : Option α} {text : Option String}
    (h : o.map Vocabulary.text = text) (otherwise : α) (s : Storage) :
    parseOr text otherwise s = .ok (o.getD otherwise) s := by
  rw [parseOr, bind_of_ok (parseOptional_eq_ok_iff.mpr ⟨h, rfl⟩)]
  rfl

def IsThere (t : Tables) (workflow : Workflow) (id : NodeId) : Prop :=
  ∃ n, t.getNode id false = some n ∧ n.workflow = workflow.id

theorem requireNode_eq_ok_iff (calm : s.outages = []) {workflow : Workflow} {id : NodeId}
    {reason : String} {u : Unit} :
    requireNode workflow id reason s = .ok u s' ↔ IsThere s.tables workflow id ∧ s' = s := by
  constructor
  · intro h
    refine ⟨requireNode_eq_ok h, ?_⟩
    obtain ⟨outages, rfl⟩ := (looks_requireNode workflow id reason).of_ok h
    unfold requireNode at h
    rw [Storage.getNode_of_calm calm] at h
    cases hn : s.tables.getNode id false with
    | none => simp [hn] at h
    | some n =>
      simp only [hn] at h
      split at h
      · exact (EStateM.Result.ok.inj h).2.symm
      · simp at h
  · rintro ⟨⟨n, hn, hmember⟩, rfl⟩
    rw [requireNode, Storage.getNode_of_calm calm, hn]
    exact if_pos hmember

theorem get_of_none (calm : s.outages = []) {id : WorkflowId}
    (h : s.tables.getWorkflow id false = none) :
    get id s = .error (.notFound "Workflow not found") s := by
  have hlook : access (Storage.getWorkflow id false) s = .ok none s := by
    rw [access, Storage.getWorkflow, look_of_calm calm, h]
  rw [get, bind_of_ok hlook]
  rfl

theorem getNode_of_none (calm : s.outages = []) {id : NodeId}
    (h : s.tables.getNode id false = none) :
    getNode id s = .error (.notFound "Node not found") s := by
  have hlook : access (Storage.getNode id false) s = .ok none s := by
    rw [access, getNode_of_calm calm, h]
  rw [getNode, bind_of_ok hlook]
  rfl

/-! ### Operations -/

/-- The row that `create` makes of what is entered. -/
def workflowRow (data : WorkflowInput) (id : WorkflowId) (organization : OrganizationId)
    (user : UserId) (name : String) (triggerType : TriggerType) (status : WorkflowStatus)
    (now : Timestamp) : Workflow :=
  { id, organization, createdBy := user, name, description := data.description, triggerType,
    triggerConfig := data.triggerConfig.getD [], status, deleted := false, created := now,
    updated := now }

/-- The row that `createNode` makes of what is entered. -/
def nodeRow (data : NodeInput) (id : NodeId) (workflow : WorkflowId) (nodeType : NodeType) : Node :=
  { id, workflow, nodeType, actionType := data.actionType, name := data.name,
    config := data.config.getD [], position := data.position.getD Position.origin,
    deleted := false }

/-- The row that `createConnection` makes of what is entered. -/
def connectionRow (data : ConnectionInput) (id : ConnectionId) (workflow : WorkflowId)
    (target : NodeId) (branch : Option ConditionType) : Connection :=
  { id, workflow, source := data.source, target, branch, priority := data.priority.getD 0 }

theorem create_eq_ok_iff (calm : s.outages = []) {data : WorkflowInput}
    {organization : OrganizationId} {user : UserId} {w : Workflow} :
    create data organization user s = .ok w s' ↔
      EnteredField.check (workflowFields data) = .ok () ∧
      (∀ w' ∈ s.tables.workflows, w'.id ≠ (s.ids.next .workflow).1) ∧
      (∃ name triggerType status, data.name = some name ∧
        data.triggerType = some (Vocabulary.text triggerType) ∧
        Option.map Vocabulary.text status = data.status ∧
        w = workflowRow data (s.ids.next .workflow).1 organization user name triggerType
          (status.getD .draft) s.clock) ∧
      s' = s.addWorkflow w := by
  unfold create
  rw [bind_eq_ok_iff]
  simp only [check_eq_ok_iff]
  -- without a name or a trigger type `create` is refused, so that both are given
  cases hname : data.name with
  | none => simp
  | some name =>
    cases htype : data.triggerType with
    | none => simp
    | some text =>
      constructor
      · rintro ⟨_, _, ⟨hcheck, rfl⟩, h⟩
        dsimp only at h
        -- the steps of `create` in their order: the type, the status, the clock, the row
        obtain ⟨triggerType, s₁, htrigger, h₁⟩ := bind_eq_ok_iff.mp h
        obtain ⟨rfl, rfl⟩ := parse_eq_ok_iff.mp htrigger
        obtain ⟨status, s₂, hstatus, h₂⟩ := bind_eq_ok_iff.mp h₁
        obtain ⟨o, s₃, hparse, hgiven⟩ := bind_eq_ok_iff.mp hstatus
        obtain ⟨hwords, rfl⟩ := parseOptional_eq_ok_iff.mp hparse
        simp only [pure_apply, EStateM.Result.ok.injEq] at hgiven
        obtain ⟨rfl, rfl⟩ := hgiven
        rw [bind_of_ok (get_apply s₃), access_eq_ok_iff, insertWorkflow_eq_ok_iff calm] at h₂
        obtain ⟨hnew, rfl, rfl⟩ := h₂
        exact ⟨hcheck, hnew, ⟨name, triggerType, o, rfl, rfl, hwords, rfl⟩, rfl⟩
      · rintro ⟨hcheck, hnew, ⟨name', triggerType, o, hname', htype', hwords, rfl⟩, rfl⟩
        obtain rfl := Option.some.inj hname'
        obtain rfl := Option.some.inj htype'
        refine ⟨(), s, ⟨hcheck, rfl⟩, ?_⟩
        dsimp only
        rw [bind_of_ok (parse_eq_ok_iff.mpr ⟨rfl, rfl⟩)]
        rw [bind_of_ok (parseOr_of_map hwords _ s), bind_of_ok (get_apply s), access_eq_ok_iff,
          insertWorkflow_eq_ok_iff calm]
        exact ⟨hnew, rfl, rfl⟩

theorem createNode_eq_ok_iff (calm : s.outages = []) {workflow : Workflow} {data : NodeInput}
    {n : Node} :
    createNode workflow data s = .ok n s' ↔
      EnteredField.check (nodeFields data) = .ok () ∧
      (∃ w ∈ s.tables.workflows, w.id = workflow.id) ∧
      (∃ nodeType, data.nodeType = some (Vocabulary.text nodeType) ∧
        n = nodeRow data (s.ids.next .node).1 workflow.id nodeType) ∧
      s' = s.addNode n := by
  unfold createNode
  rw [bind_eq_ok_iff]
  simp only [check_eq_ok_iff]
  cases htype : data.nodeType with
  | none => simp
  | some text =>
    constructor
    · rintro ⟨_, _, ⟨hcheck, rfl⟩, h⟩
      dsimp only at h
      obtain ⟨nodeType, s₁, hparse, h₁⟩ := bind_eq_ok_iff.mp h
      obtain ⟨rfl, rfl⟩ := parse_eq_ok_iff.mp hparse
      rw [access_eq_ok_iff, insertNode_eq_ok_iff calm] at h₁
      obtain ⟨howner, rfl, rfl⟩ := h₁
      exact ⟨hcheck, howner, ⟨nodeType, rfl, rfl⟩, rfl⟩
    · rintro ⟨hcheck, howner, ⟨nodeType, htype', rfl⟩, rfl⟩
      obtain rfl := Option.some.inj htype'
      refine ⟨(), s, ⟨hcheck, rfl⟩, ?_⟩
      dsimp only
      rw [bind_of_ok (parse_eq_ok_iff.mpr ⟨rfl, rfl⟩), access_eq_ok_iff,
        insertNode_eq_ok_iff calm]
      exact ⟨howner, rfl, rfl⟩

theorem requireSource_eq_ok_iff (calm : s.outages = []) {workflow : Workflow}
    {source : Option NodeId} {reason : String} {u : PUnit} :
    (source.forM fun id => requireNode workflow id reason) s = .ok u s' ↔
      (∀ id, source = some id → IsThere s.tables workflow id) ∧ s' = s := by
  cases source with
  | none =>
    show (EStateM.Result.ok PUnit.unit s : EStateM.Result AuthoringError Storage PUnit)
      = .ok u s' ↔ _
    simp [eq_comm]
  | some id =>
    apply (requireNode_eq_ok_iff calm).trans
    simp

theorem createConnection_eq_ok_iff (calm : s.outages = []) {workflow : Workflow}
    {data : ConnectionInput} {c : Connection} :
    createConnection workflow data s = .ok c s' ↔
      EnteredField.check (connectionFields data) = .ok () ∧
      (∃ w ∈ s.tables.workflows, w.id = workflow.id) ∧
      (∀ id, data.source = some id → IsThere s.tables workflow id) ∧
      (∃ target branch, data.target = some target ∧ IsThere s.tables workflow target ∧
        Option.map Vocabulary.text branch = data.conditionType ∧
        c = connectionRow data (s.ids.next .connection).1 workflow.id target branch) ∧
      s' = s.addConnection c := by
  unfold createConnection
  rw [bind_eq_ok_iff]
  simp only [check_eq_ok_iff]
  -- without a target `createConnection` is refused, so that one is given
  cases htarget : data.target with
  | none => simp
  | some target =>
    constructor
    · rintro ⟨_, _, ⟨hcheck, rfl⟩, h⟩
      dsimp only at h
      obtain ⟨_, s₁, hrequire, h₁⟩ := bind_eq_ok_iff.mp h
      obtain ⟨hthere, rfl⟩ := (requireNode_eq_ok_iff calm).mp hrequire
      obtain ⟨_, s₂, hrequire', h₂⟩ := bind_eq_ok_iff.mp h₁
      obtain ⟨hsource, rfl⟩ := (requireSource_eq_ok_iff calm).mp hrequire'
      obtain ⟨branch, s₃, hparse, h₃⟩ := bind_eq_ok_iff.mp h₂
      obtain ⟨hwords, rfl⟩ := parseOptional_eq_ok_iff.mp hparse
      rw [access_eq_ok_iff, insertConnection_eq_ok_iff calm] at h₃
      obtain ⟨howner, rfl, rfl⟩ := h₃
      exact ⟨hcheck, howner, hsource, ⟨target, branch, rfl, hthere, hwords, rfl⟩, rfl⟩
    · rintro ⟨hcheck, howner, hsource, ⟨target', branch, htarget', hthere, hwords, rfl⟩, rfl⟩
      obtain rfl := Option.some.inj htarget'
      refine ⟨(), s, ⟨hcheck, rfl⟩, ?_⟩
      dsimp only
      rw [bind_of_ok ((requireNode_eq_ok_iff calm (u := ())).mpr ⟨hthere, rfl⟩),
        bind_of_ok ((requireSource_eq_ok_iff calm (u := ())).mpr ⟨hsource, rfl⟩),
        bind_of_ok (parseOptional_eq_ok_iff.mpr ⟨hwords, rfl⟩), access_eq_ok_iff,
        insertConnection_eq_ok_iff calm]
      exact ⟨howner, rfl, rfl⟩

/-! ### Inspection -/

/-- Without outages `validateGraph` answers with the `Graph.warnings` of the graph in the tables,
and only looks. -/
theorem validateGraph_of_calm (calm : s.outages = []) (catalogue : Catalogue)
    (workflow : Workflow) (components : Graph → List (List Graph.Place)) :
    validateGraph catalogue workflow components s
      = .ok ((Graph.ofTables s.tables workflow.id).warnings catalogue
          (components (Graph.ofTables s.tables workflow.id))) s := by
  rw [validateGraph, bind_of_ok (access_eq_ok_iff.mpr (Graph.load_of_calm calm workflow.id))]
  rfl

end Authoring

end TriggerFlow
