import TriggerFlow.Proofs.Authoring.History
import TriggerFlow.Proofs.Store.Rows
/-!
# The effects of authoring

An operation that succeeds does what `Does` says (`does_of_run`), and one that is refused leaves the
tables as they were (`tables_of_refused`): it `Looks` at the store until its one call that writes.
-/

namespace TriggerFlow.Authoring

open Storage

variable {α β : Type} {s s' : Storage}

/-! ### Parts of operations -/

def Atomic (work : Work α) : Prop := ∀ s e s', work s = .error e s' → s'.tables = s.tables

theorem Atomic.of_looks {work : Work α} (h : Looks work) : Atomic work :=
  fun _ _ _ hs => h.reads.of_error hs

/-- Work that `Looks` and then goes on atomically is atomic. -/
theorem Atomic.bind_of_looks {work : Work α} {next : α → Work β} (h : Looks work)
    (hnext : ∀ a, Atomic (next a)) : Atomic (work >>= next) := by
  intro s e s' hs
  rcases bind_eq_error_iff.mp hs with h₁ | ⟨a, s₁, h₁, h₂⟩
  · exact h.reads.of_error h₁
  · exact (hnext a _ _ _ h₂).trans (h.reads.of_ok h₁)

theorem Atomic.bind_pure {work : Work α} (h : Atomic work) (f : α → β) :
    Atomic (work >>= fun a => pure (f a)) := by
  intro s e s' hs
  rcases bind_eq_error_iff.mp hs with h₁ | ⟨a, s₁, h₁, h₂⟩
  · exact h _ _ _ h₁
  · simp at h₂

theorem access_eq_ok {a : Access α} {v : α} (h : access a s = .ok v s') : a s = .ok v s' := by
  unfold access at h
  split at h
  · next hs =>
    simp only [EStateM.Result.ok.injEq] at h
    rw [hs, h.1, h.2]
  · simp at h

theorem access_eq_error {a : Access α} {e : AuthoringError} (h : access a s = .error e s') :
    ∃ e', e = .store e' ∧ a s = .error e' s' := by
  unfold access at h
  split at h
  · simp at h
  · next e' s'' hs =>
    simp only [EStateM.Result.error.injEq] at h
    exact ⟨e', h.1.symm, by rw [hs, h.2]⟩

theorem looks_access {a : Access α} (h : Looks a) : Looks (access a) := by
  intro s
  unfold access
  have := h s
  split <;> next hs => rwa [hs] at this

theorem looks_check (fields : List EnteredField) : Looks (check fields) := by
  unfold check
  split
  · exact looks_pure _
  · exact looks_throw _

theorem looks_parse [Vocabulary α] (text : String) : Looks (parse text : Work α) := by
  unfold parse
  split
  · exact looks_pure _
  · exact looks_throw _

theorem looks_getNode (id : NodeId) (withDeleted : Bool) : Looks (Storage.getNode id withDeleted) :=
  looks_look _ _

theorem looks_requireNode (workflow : Workflow) (id : NodeId) (reason : String) :
    Looks (requireNode workflow id reason) := by
  intro s
  have := looks_getNode id false s
  unfold requireNode
  split <;> next hs =>
    rw [hs] at this
    first
    | exact this
    | split <;> exact this

theorem requireNode_eq_ok {workflow : Workflow} {id : NodeId} {reason : String} {u : Unit}
    (h : requireNode workflow id reason s = .ok u s') :
    ∃ n, s.tables.getNode id false = some n ∧ n.workflow = workflow.id := by
  unfold requireNode at h
  split at h
  · next n s₁ hs =>
    split at h
    · next hmember => exact ⟨n, (look_eq_ok hs).symm, hmember⟩
    · simp at h
  all_goals simp at h

theorem looks_parseOptional [Vocabulary α] (text : Option String) :
    Looks (parseOptional text : Work (Option α)) := by
  cases text with
  | none => exact looks_pure _
  | some text =>
    have hmap : (parseOptional (some text) : Work (Option α))
        = parse text >>= fun a => pure (some a) := (bind_pure_comp _ _).symm
    rw [hmap]
    exact (looks_parse text).bind fun _ => looks_pure _

theorem looks_parseOr [Vocabulary α] (text : Option String) (otherwise : α) :
    Looks (parseOr text otherwise) :=
  (looks_parseOptional text).bind fun _ => looks_pure _

theorem looks_requireSource (workflow : Workflow) (source : Option NodeId) (reason : String) :
    Looks (source.forM fun id => requireNode workflow id reason) := by
  cases source with
  | none => exact looks_pure _
  | some id => exact looks_requireNode workflow id reason

/-- Where work that `Looks` comes first, the rest begins with the same store but for outages. -/
theorem bind_looks_eq_ok {work : Work α} {next : α → Work β} {b : β} (hlooks : Looks work)
    (h : (work >>= next) s = .ok b s') :
    ∃ a outages, work s = .ok a { s with outages } ∧ next a { s with outages } = .ok b s' := by
  obtain ⟨a, s₁, h₁, h₂⟩ := bind_eq_ok_iff.mp h
  obtain ⟨outages, rfl⟩ := hlooks.of_ok h₁
  exact ⟨a, outages, h₁, h₂⟩

theorem check_eq_ok_iff {fields : List EnteredField} {u : Unit} :
    check fields s = .ok u s' ↔ EnteredField.check fields = .ok () ∧ s' = s := by
  unfold check
  cases hcheck : EnteredField.check fields with
  | error e => simp
  | ok u' => simp [eq_comm]

/-- The work `parse text` succeeds with the member of the vocabulary whose word the text is. -/
theorem parse_eq_ok_iff [Vocabulary α] {text : String} {a : α} :
    (parse text : Work α) s = .ok a s' ↔ Vocabulary.text a = text ∧ s' = s := by
  unfold parse Vocabulary.parse
  rw [← Vocabulary.ofText?_eq_some_iff]
  cases hword : (Vocabulary.ofText? text : Option α) with
  | none => simp
  | some a' => simp [eq_comm]

theorem parseOptional_eq_ok_iff [Vocabulary α] {text : Option String} {o : Option α} :
    (parseOptional text : Work (Option α)) s = .ok o s' ↔
      o.map Vocabulary.text = text ∧ s' = s := by
  cases text with
  | none =>
    simp only [parseOptional, pure_apply, EStateM.Result.ok.injEq, Option.map_eq_none_iff]
    rw [eq_comm, @eq_comm _ s']
  | some text =>
    have hmap : (parseOptional (some text) : Work (Option α))
        = parse text >>= fun a => pure (some a) := (bind_pure_comp _ _).symm
    rw [hmap, bind_eq_ok_iff]
    simp only [parse_eq_ok_iff, pure_apply, EStateM.Result.ok.injEq, Option.map_eq_some_iff]
    constructor
    · rintro ⟨a, s₁, ⟨htext, rfl⟩, rfl, rfl⟩
      exact ⟨⟨a, rfl, htext⟩, rfl⟩
    · rintro ⟨⟨a, rfl, htext⟩, rfl⟩
      exact ⟨a, s', ⟨htext, rfl⟩, rfl, rfl⟩

theorem parseOr_eq_ok [Vocabulary α] {text : Option String} {otherwise a : α}
    (h : parseOr text otherwise s = .ok a s') :
    Vocabulary.text a = text.getD (Vocabulary.text otherwise) := by
  obtain ⟨o, s₁, hparse, hgiven⟩ := bind_eq_ok_iff.mp h
  obtain ⟨rfl, -⟩ := parseOptional_eq_ok_iff.mp hparse
  obtain ⟨rfl, -⟩ := EStateM.Result.ok.inj hgiven
  rw [Option.getD_map]

/-! ### Workflows -/

theorem create_eq_ok {data : WorkflowInput} {organization : OrganizationId} {user : UserId}
    {w : Workflow} (h : create data organization user s = .ok w s') :
    (EnteredField.check (workflowFields data) = .ok () ∧ data.name = some w.name) ∧
      w.id = (s.ids.next .workflow).1 ∧ (∀ w' ∈ s.tables.workflows, w'.id ≠ w.id) ∧
      s'.tables = { s.tables with workflows := s.tables.workflows ++ [w] } := by
  unfold create at h
  obtain ⟨_, _, hcheck, h⟩ := bind_looks_eq_ok (looks_check _) h
  cases hname : data.name with
  | none => simp [hname] at h
  | some name =>
    cases htype : data.triggerType with
    | none => simp [hname, htype] at h
    | some triggerType =>
      simp only [hname, htype] at h
      obtain ⟨_, _, -, h⟩ := bind_looks_eq_ok (looks_parse _) h
      obtain ⟨_, _, -, h⟩ := bind_looks_eq_ok (looks_parseOr _ _) h
      obtain ⟨_, _, -, h⟩ := bind_looks_eq_ok looks_get h
      obtain ⟨rfl, hnew, htables⟩ := insertWorkflow_eq_ok (access_eq_ok h)
      exact ⟨⟨(check_eq_ok_iff.mp hcheck).1, rfl⟩, rfl, hnew, htables⟩

theorem update_eq_ok {workflow w : Workflow} {data : WorkflowInput}
    (h : update workflow data s = .ok w s') :
    EnteredField.check (workflowPatchFields data) = .ok () ∧
      ∃ stored, s.tables.getWorkflow workflow.id true = some stored ∧
      (∃ triggerType status,
        Vocabulary.text triggerType =
          data.triggerType.getD (Vocabulary.text workflow.triggerType) ∧
        Vocabulary.text status = data.status.getD (Vocabulary.text workflow.status) ∧
        w = { workflow with
          name := data.name.getD workflow.name
          description := data.description <|> workflow.description
          triggerType
          triggerConfig := data.triggerConfig.getD workflow.triggerConfig
          status
          deleted := stored.deleted
          updated := s.clock }) ∧
      s'.tables = { s.tables with
        workflows := Tables.replaceFirst (fun w => w.id == workflow.id) w s.tables.workflows } := by
  unfold update at h
  obtain ⟨_, _, hcheck, h⟩ := bind_looks_eq_ok (looks_check _) h
  obtain ⟨triggerType, _, htype, h⟩ := bind_looks_eq_ok (looks_parseOr _ _) h
  obtain ⟨status, _, hstatus, h⟩ := bind_looks_eq_ok (looks_parseOr _ _) h
  obtain ⟨stored, hfound, rfl, htables⟩ := updateWorkflow_eq_ok (access_eq_ok h)
  exact ⟨(check_eq_ok_iff.mp hcheck).1, stored, hfound,
    ⟨triggerType, status, parseOr_eq_ok htype, parseOr_eq_ok hstatus, rfl⟩, htables⟩

/-! ### Nodes -/

theorem createNode_eq_ok {workflow : Workflow} {data : NodeInput} {n : Node}
    (h : createNode workflow data s = .ok n s') :
    n.id = (s.ids.next .node).1 ∧ n.workflow = workflow.id ∧ n.deleted = false ∧
      (∃ w ∈ s.tables.workflows, w.id = workflow.id) ∧
      s'.tables = { s.tables with nodes := s.tables.nodes ++ [n] } := by
  unfold createNode at h
  obtain ⟨_, _, -, h⟩ := bind_looks_eq_ok (looks_check _) h
  cases htype : data.nodeType with
  | none => simp [htype] at h
  | some nodeType =>
    simp only [htype] at h
    obtain ⟨_, _, -, h⟩ := bind_looks_eq_ok (looks_parse _) h
    obtain ⟨rfl, howner, htables⟩ := insertNode_eq_ok (access_eq_ok h)
    exact ⟨rfl, rfl, rfl, howner, htables⟩

theorem updateNode_eq_ok {node n : Node} {data : NodeInput}
    (h : updateNode node data s = .ok n s') :
    ∃ stored, s.tables.getNode node.id true = some stored ∧
      (∃ nodeType,
        Vocabulary.text nodeType = data.nodeType.getD (Vocabulary.text node.nodeType) ∧
        n = { node with
          nodeType
          actionType := data.actionType <|> node.actionType
          name := data.name <|> node.name
          config := data.config.getD node.config
          position := data.position.getD node.position
          deleted := stored.deleted }) ∧
      s'.tables = { s.tables with
        nodes := Tables.replaceFirst (fun n => n.id == node.id) n s.tables.nodes } := by
  unfold updateNode at h
  obtain ⟨_, _, -, h⟩ := bind_looks_eq_ok (looks_check _) h
  obtain ⟨nodeType, _, htype, h⟩ := bind_looks_eq_ok (looks_parseOr _ _) h
  obtain ⟨stored, hfound, rfl, htables⟩ := Storage.updateNode_eq_ok (access_eq_ok h)
  exact ⟨stored, hfound, ⟨nodeType, parseOr_eq_ok htype, rfl⟩, htables⟩

/-! ### Connections -/

theorem createConnection_eq_ok {workflow : Workflow} {data : ConnectionInput} {c : Connection}
    (h : createConnection workflow data s = .ok c s') :
    c.id = (s.ids.next .connection).1 ∧ c.workflow = workflow.id ∧
      (data.target = some c.target ∧ data.source = c.source) ∧
      (∀ id, c.target = id ∨ c.source = some id →
        ∃ n, s.tables.getNode id false = some n ∧ n.workflow = workflow.id) ∧
      (∃ w ∈ s.tables.workflows, w.id = workflow.id) ∧
      s'.tables = { s.tables with connections := s.tables.connections ++ [c] } := by
  unfold createConnection at h
  obtain ⟨_, _, -, h⟩ := bind_looks_eq_ok (looks_check _) h
  cases htarget : data.target with
  | none => simp [htarget] at h
  | some target =>
    simp only [htarget] at h
    obtain ⟨_, _, hrequired, h⟩ := bind_looks_eq_ok (looks_requireNode _ _ _) h
    obtain ⟨_, _, hrequired', h⟩ := bind_looks_eq_ok (looks_requireSource _ _ _) h
    obtain ⟨_, _, -, h⟩ := bind_looks_eq_ok (looks_parseOptional _) h
    obtain ⟨rfl, howner, htables⟩ := insertConnection_eq_ok (access_eq_ok h)
    refine ⟨rfl, rfl, ⟨rfl, rfl⟩, ?_, howner, htables⟩
    have hthere := requireNode_eq_ok hrequired
    rintro id (hid | hid)
    · obtain rfl : target = id := hid
      exact hthere
    · have hsource : data.source = some id := hid
      rw [hsource] at hrequired'
      -- looking for the target has spent outages at most
      change requireNode workflow id "From node not found" _ = _ at hrequired'
      have hthere' := requireNode_eq_ok hrequired'
      exact hthere'

/-! ### Operations -/

theorem answer_eq_ok {work : Work α} {f : α → β} {b : β}
    (h : (work >>= fun a => pure (f a)) s = .ok b s') : ∃ a, work s = .ok a s' ∧ f a = b := by
  obtain ⟨a, s₁, h₁, h₂⟩ := bind_eq_ok_iff.mp h
  simp only [pure_apply, EStateM.Result.ok.injEq] at h₂
  obtain ⟨rfl, rfl⟩ := h₂
  exact ⟨a, h₁, rfl⟩

theorem within_ofWorkflows {t : Tables} {ws : List Workflow} (h : ws ⊆ t.workflows) :
    (Handles.ofWorkflows ws).Within t :=
  ⟨h, List.nil_subset _, List.nil_subset _⟩

theorem within_ofNodes {t : Tables} {ns : List Node} (h : ns ⊆ t.nodes) :
    (Handles.ofNodes ns).Within t :=
  ⟨List.nil_subset _, h, List.nil_subset _⟩

theorem within_ofConnections {t : Tables} {cs : List Connection} (h : cs ⊆ t.connections) :
    (Handles.ofConnections cs).Within t :=
  ⟨List.nil_subset _, List.nil_subset _, h⟩

theorem look_of_access {call : StoreCall} {f : Tables → α} {a : α}
    (h : access (look call f) s = .ok a s') : s'.tables = s.tables ∧ f s.tables = a :=
  ⟨(looks_look call f).reads.of_ok (access_eq_ok h), (look_eq_ok (access_eq_ok h)).symm⟩

theorem looks_get_workflow (id : WorkflowId) : Looks (get id) := by
  refine (looks_access (looks_look _ _)).bind fun found => ?_
  cases found with
  | none => exact looks_throw _
  | some w => exact looks_pure _

theorem get_eq_ok {id : WorkflowId} {w : Workflow} (h : get id s = .ok w s') :
    s'.tables = s.tables ∧ s.tables.getWorkflow id false = some w := by
  obtain ⟨found, s₁, h₁, h₂⟩ := bind_eq_ok_iff.mp h
  obtain ⟨htables, hfound⟩ := look_of_access h₁
  cases found with
  | none => simp at h₂
  | some w' =>
    simp only [pure_apply, EStateM.Result.ok.injEq] at h₂
    obtain ⟨rfl, rfl⟩ := h₂
    exact ⟨htables, hfound⟩

theorem looks_getNode_row (id : NodeId) : Looks (getNode id) := by
  refine (looks_access (looks_look _ _)).bind fun found => ?_
  cases found with
  | none => exact looks_throw _
  | some n => exact looks_pure _

theorem getNode_eq_ok {id : NodeId} {n : Node} (h : getNode id s = .ok n s') :
    s'.tables = s.tables ∧ s.tables.getNode id false = some n := by
  obtain ⟨found, s₁, h₁, h₂⟩ := bind_eq_ok_iff.mp h
  obtain ⟨htables, hfound⟩ := look_of_access h₁
  cases found with
  | none => simp at h₂
  | some n' =>
    simp only [pure_apply, EStateM.Result.ok.injEq] at h₂
    obtain ⟨rfl, rfl⟩ := h₂
    exact ⟨htables, hfound⟩

/-- What an operation that succeeds has done to the tables is what `Does` says of it. -/
theorem does_of_run {op : Operation} {given : Handles} (h : op.run s = .ok given s') :
    Does s op given s'.tables := by
  -- each operation is one write, and what it does is read off the lemma of that write
  cases op with
  | create data organization user =>
    obtain ⟨w, hrun, rfl⟩ := answer_eq_ok h
    obtain ⟨-, hid, hnew, htables⟩ := create_eq_ok hrun
    rw [htables]
    exact .create hid hnew
  | update workflow data =>
    obtain ⟨w, hrun, rfl⟩ := answer_eq_ok h
    obtain ⟨-, stored, hfound, ⟨_, _, -, -, rfl⟩, htables⟩ := update_eq_ok hrun
    rw [htables]
    exact .update hfound rfl rfl
  | get id =>
    obtain ⟨w, hrun, rfl⟩ := answer_eq_ok h
    obtain ⟨htables, hfound⟩ := get_eq_ok hrun
    have hmem := List.mem_of_find?_eq_some hfound
    rw [htables]
    exact .look trivial (within_ofWorkflows (by simpa using hmem))
  | list organization =>
    obtain ⟨ws, hrun, rfl⟩ := answer_eq_ok h
    obtain ⟨htables, rfl⟩ := look_of_access hrun
    rw [htables]
    exact .look trivial (within_ofWorkflows (List.filter_sublist.subset))
  | delete workflow =>
    obtain ⟨u, hrun, rfl⟩ := answer_eq_ok h
    obtain ⟨stored, hfound, htables⟩ := Tables.softDeleteWorkflow_eq_ok
      (write_eq_ok (f := fun t now => t.softDeleteWorkflow workflow.id now) (access_eq_ok hrun))
    rw [htables]
    exact .delete hfound rfl
  | hardDelete workflow =>
    obtain ⟨u, hrun, rfl⟩ := answer_eq_ok h
    rw [Tables.hardDeleteWorkflow_eq_ok
      (write_eq_ok (f := fun t _ => t.hardDeleteWorkflow workflow.id) (access_eq_ok hrun))]
    exact .hardDelete
  | createNode workflow data =>
    obtain ⟨n, hrun, rfl⟩ := answer_eq_ok h
    obtain ⟨hid, hmember, hlive, howner, htables⟩ := createNode_eq_ok hrun
    rw [htables]
    exact .createNode hid hmember hlive howner
  | updateNode node data =>
    obtain ⟨n, hrun, rfl⟩ := answer_eq_ok h
    obtain ⟨stored, hfound, ⟨_, -, rfl⟩, htables⟩ := updateNode_eq_ok hrun
    rw [htables]
    exact .updateNode hfound rfl rfl rfl
  | getNode id =>
    obtain ⟨n, hrun, rfl⟩ := answer_eq_ok h
    obtain ⟨htables, hfound⟩ := getNode_eq_ok hrun
    have hmem := List.mem_of_find?_eq_some hfound
    rw [htables]
    exact .look trivial (within_ofNodes (by simpa using hmem))
  | listNodes workflow =>
    obtain ⟨ns, hrun, rfl⟩ := answer_eq_ok h
    obtain ⟨htables, rfl⟩ := look_of_access hrun
    rw [htables]
    exact .look trivial (within_ofNodes (List.filter_sublist.subset))
  | deleteNode node =>
    obtain ⟨u, hrun, rfl⟩ := answer_eq_ok h
    obtain ⟨stored, hfound, htables⟩ := Tables.softDeleteNode_eq_ok
      (write_eq_ok (f := fun t _ => t.softDeleteNode node.id) (access_eq_ok hrun))
    rw [htables]
    exact .deleteNode hfound rfl
  | hardDeleteNode node =>
    obtain ⟨u, hrun, rfl⟩ := answer_eq_ok h
    rw [Tables.hardDeleteNode_eq_ok
      (write_eq_ok (f := fun t _ => t.hardDeleteNode node.id) (access_eq_ok hrun))]
    exact .hardDeleteNode
  | createConnection workflow data =>
    obtain ⟨c, hrun, rfl⟩ := answer_eq_ok h
    obtain ⟨hid, hmember, -, hends, howner, htables⟩ := createConnection_eq_ok hrun
    rw [htables]
    exact .createConnection hid hmember hends howner
  | listConnections workflow =>
    obtain ⟨cs, hrun, rfl⟩ := answer_eq_ok h
    obtain ⟨htables, rfl⟩ := look_of_access hrun
    rw [htables]
    exact .look trivial (within_ofConnections (List.filter_sublist.subset))
  | deleteConnection id =>
    obtain ⟨u, hrun, rfl⟩ := answer_eq_ok h
    rw [Tables.deleteConnection_eq_ok
      (write_eq_ok (f := fun t _ => t.deleteConnection id) (access_eq_ok hrun))]
    exact .deleteConnection
  | validateGraph catalogue workflow =>
    obtain ⟨warnings, hrun, rfl⟩ := answer_eq_ok h
    obtain ⟨g, s₁, hload, hwarnings⟩ := bind_eq_ok_iff.mp hrun
    simp only [pure_apply, EStateM.Result.ok.injEq] at hwarnings
    rw [← hwarnings.2, (Graph.looks_load _).reads.of_ok (access_eq_ok hload)]
    exact .look trivial ⟨List.nil_subset _, List.nil_subset _, List.nil_subset _⟩

/-! ### Refusals -/

theorem atomic_access {a : Access α} (h : ∀ s e s', a s = .error e s' → s'.tables = s.tables) :
    Atomic (access a) := by
  intro s e s' hs
  obtain ⟨e', -, he⟩ := access_eq_error hs
  exact h _ _ _ he

theorem atomic_create (data : WorkflowInput) (organization : OrganizationId) (user : UserId) :
    Atomic (create data organization user) := by
  refine .bind_of_looks (looks_check _) fun _ => ?_
  split
  · refine .bind_of_looks (looks_parse _) fun _ => ?_
    refine .bind_of_looks (looks_parseOr _ _) fun _ => ?_
    refine .bind_of_looks looks_get fun _ => ?_
    exact atomic_access fun _ _ _ hs => insert_eq_error (g := fun id t => t.insertWorkflow _) hs
  · exact .of_looks (looks_throw _)

theorem atomic_update (workflow : Workflow) (data : WorkflowInput) :
    Atomic (update workflow data) := by
  refine .bind_of_looks (looks_check _) fun _ => ?_
  refine .bind_of_looks (looks_parseOr _ _) fun _ => ?_
  refine .bind_of_looks (looks_parseOr _ _) fun _ => ?_
  exact atomic_access fun _ _ _ hs => write_eq_error (f := fun t now => t.updateWorkflow _ now) hs

theorem atomic_createNode (workflow : Workflow) (data : NodeInput) :
    Atomic (createNode workflow data) := by
  refine .bind_of_looks (looks_check _) fun _ => ?_
  split
  · refine .bind_of_looks (looks_parse _) fun _ => ?_
    exact atomic_access fun _ _ _ hs => insert_eq_error (g := fun id t => t.insertNode _) hs
  · exact .of_looks (looks_throw _)

theorem atomic_updateNode (node : Node) (data : NodeInput) : Atomic (updateNode node data) := by
  refine .bind_of_looks (looks_check _) fun _ => ?_
  refine .bind_of_looks (looks_parseOr _ _) fun _ => ?_
  exact atomic_access fun _ _ _ hs => write_eq_error (f := fun t _ => t.updateNode _) hs

theorem atomic_createConnection (workflow : Workflow) (data : ConnectionInput) :
    Atomic (createConnection workflow data) := by
  refine .bind_of_looks (looks_check _) fun _ => ?_
  split
  · exact .of_looks (looks_throw _)
  · refine .bind_of_looks (looks_requireNode _ _ _) fun _ => ?_
    refine .bind_of_looks (looks_requireSource _ _ _) fun _ => ?_
    refine .bind_of_looks (looks_parseOptional _) fun _ => ?_
    exact atomic_access fun _ _ _ hs => insert_eq_error (g := fun id t => t.insertConnection _) hs

theorem tables_of_refused {op : Operation} {e : AuthoringError} (h : op.run s = .error e s') :
    s'.tables = s.tables := by
  -- an operation writes at most once, and last, so that a refusal leaves nothing behind
  refine (?_ : Atomic op.run) _ _ _ h
  cases op with
  | create data organization user => exact (atomic_create data organization user).bind_pure _
  | update workflow data => exact (atomic_update workflow data).bind_pure _
  | get id => exact .of_looks ((looks_get_workflow id).bind fun _ => looks_pure _)
  | list organization =>
    exact .of_looks ((looks_access (looks_look _ _)).bind fun _ => looks_pure _)
  | delete workflow =>
    exact (atomic_access fun _ _ _ hs =>
      write_eq_error (f := fun t now => t.softDeleteWorkflow workflow.id now) hs).bind_pure _
  | hardDelete workflow =>
    exact (atomic_access fun _ _ _ hs =>
      write_eq_error (f := fun t _ => t.hardDeleteWorkflow workflow.id) hs).bind_pure _
  | createNode workflow data => exact (atomic_createNode workflow data).bind_pure _
  | updateNode node data => exact (atomic_updateNode node data).bind_pure _
  | getNode id => exact .of_looks ((looks_getNode_row id).bind fun _ => looks_pure _)
  | listNodes workflow =>
    exact .of_looks ((looks_access (looks_look _ _)).bind fun _ => looks_pure _)
  | deleteNode node =>
    exact (atomic_access fun _ _ _ hs =>
      write_eq_error (f := fun t _ => t.softDeleteNode node.id) hs).bind_pure _
  | hardDeleteNode node =>
    exact (atomic_access fun _ _ _ hs =>
      write_eq_error (f := fun t _ => t.hardDeleteNode node.id) hs).bind_pure _
  | createConnection workflow data => exact (atomic_createConnection workflow data).bind_pure _
  | listConnections workflow =>
    exact .of_looks ((looks_access (looks_look _ _)).bind fun _ => looks_pure _)
  | deleteConnection id =>
    exact (atomic_access fun _ _ _ hs =>
      write_eq_error (f := fun t _ => t.deleteConnection id) hs).bind_pure _
  | validateGraph catalogue workflow =>
    exact .of_looks (((looks_access (Graph.looks_load _)).bind fun _ => looks_pure _).bind
      fun _ => looks_pure _)

/-! ### Whole histories -/

theorem Handles.and_empty (h : Handles) : h.and .empty = h := by
  simp [Handles.and, Handles.empty]

theorem keeps_of_succeeding {P : Tables → Handles → Prop} {h : Handles} {op : Operation}
    (now : P s.tables h)
    (succeeding : ∀ given s', op.run s = .ok given s' → P s'.tables (h.and given)) :
    P (leftBy (op.run s)).tables (h.and (handedOut (op.run s))) := by
  cases hrun : op.run s with
  | ok given s' => exact succeeding given s' hrun
  | error e s' =>
    rw [leftBy_error, tables_of_refused hrun, handedOut, Handles.and_empty]
    exact now

/-- Induction over `Authored`: a fact that holds of the empty tables, and is kept by runs and by
every operation that succeeds, holds of all. -/
theorem Authored.holds {P : Tables → Handles → Prop} {t : Tables} {h : Handles}
    (authored : Authored t h) (empty : P .empty .empty)
    (runs : ∀ t h executions, P t h → P { t with executions } h)
    (step : ∀ s s' h given op, Authored s.tables h → P s.tables h → Operation.Held h op →
      h.Fresh s → op.run s = .ok given s' → P s'.tables (h.and given)) : P t h := by
  induction authored with
  | empty => exact empty
  | runs executions authored ih => exact runs _ _ executions ih
  | @step s h op authored held fresh ih =>
    exact keeps_of_succeeding ih fun given s' => step s s' h given op authored ih held fresh

end TriggerFlow.Authoring
