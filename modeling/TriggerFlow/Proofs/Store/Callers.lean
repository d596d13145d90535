import TriggerFlow.Dispatch
import TriggerFlow.Proofs.Authoring.Effects
import TriggerFlow.Proofs.Engine.Journal
import TriggerFlow.Proofs.Store.Finality
/-!
# Whoever uses the store

Authors, runs and the reaper use the store by operations on its tables and in no other way
(`Tables.Leads`), so that what is true over any sequence of operations is true over whatever they
do, in whatever order.  Of actions this has to be assumed (`Engine.Honest`).

What a run does to the store is to look at it, to add and to write rows of executions, and to let
actions use it.  A relation that holds over each of these holds over a run (`Engine.Carries`), and
one that holds over runs holds over a round of them (`Engine.fire_relates`).
-/

namespace TriggerFlow

/-- Some operations lead from `t` to `t'`. -/
def Tables.Leads (t t' : Tables) : Prop := ∃ ops, t.afterAll ops = t'

namespace Tables.Leads

variable {t t' t'' : Tables}

theorem refl (t : Tables) : t.Leads t := ⟨[], rfl⟩

theorem of_eq (h : t' = t) : t.Leads t' := h ▸ refl t

theorem trans (h : t.Leads t') (h' : t'.Leads t'') : t.Leads t'' := by
  obtain ⟨ops, rfl⟩ := h
  obtain ⟨ops', rfl⟩ := h'
  exact ⟨ops ++ ops', afterAll_append t ops ops'⟩

theorem of_after (op : Operation) (h : t.after op = t') : t.Leads t' := ⟨[op], h⟩

theorem executions (h : t.Leads t') {i : Nat} {e : Execution} (hi : t.executions[i]? = some e) :
    ∃ e', t'.executions[i]? = some e' ∧ e.Precedes e' := by
  obtain ⟨ops, rfl⟩ := h
  exact getElem?_afterAll ops hi

theorem getExecution (h : t.Leads t') {id : ExecutionId} {e : Execution}
    (hfound : t.getExecution id = some e) :
    ∃ e', t'.getExecution id = some e' ∧ e.Precedes e' := by
  obtain ⟨ops, rfl⟩ := h
  exact getExecution_afterAll ops hfound

end Tables.Leads

/-! ### Single calls -/

namespace Storage

variable {ε α β : Type}

/-- The work uses the tables by operations only: it `Leads` from every store to the one it leaves.
-/
def Operates (work : EStateM ε Storage α) : Prop :=
  ∀ s : Storage, s.tables.Leads (leftBy (work s)).tables

theorem Reads.operates {work : EStateM ε Storage α} (h : Reads work) : Operates work :=
  fun s => .of_eq (h s)

theorem Operates.bind {work : EStateM ε Storage α} {next : α → EStateM ε Storage β}
    (h : Operates work) (hnext : ∀ a, Operates (next a)) : Operates (work >>= next) := by
  intro s
  have hs := h s
  rw [bind_apply]
  cases hwork : work s with
  | ok a s' =>
    rw [hwork] at hs
    exact hs.trans (hnext a s')
  | error e s' =>
    rw [hwork] at hs
    exact hs

/-- A call that changes or removes rows as an operation does `Operates`. -/
theorem operates_write {call : StoreCall} {f : Tables → Timestamp → Tables.Outcome α}
    (h : ∀ (t : Tables) now, ∃ op, t.after op = t.resulting (f t now)) :
    Operates (attempt call >>= fun _ => change fun s => f s.tables s.clock) := by
  intro s
  cases hrun : (attempt call >>= fun _ => change fun s => f s.tables s.clock) s with
  | ok a s' =>
    obtain ⟨op, hop⟩ := h s.tables s.clock
    rw [write_eq_ok hrun] at hop
    exact .of_after op hop
  | error e s' => exact .of_eq (write_eq_error hrun)

/-- A call that adds a row as an operation does `Operates`. -/
theorem operates_insert {call : StoreCall} {kind : RowKind} {g : Uuid → Tables → Tables.Outcome α}
    (h : ∀ id (t : Tables), ∃ op, t.after op = t.resulting (g id t)) :
    Operates (attempt call >>= fun _ => drawId kind >>= fun id =>
      change fun s => g id s.tables) := by
  intro s
  cases hrun : (attempt call >>= fun _ => drawId kind >>= fun id =>
      change fun s => g id s.tables) s with
  | ok a s' =>
    obtain ⟨op, hop⟩ := h (s.ids.next kind).1 s.tables
    rw [insert_eq_ok hrun] at hop
    exact .of_after op hop
  | error e s' => exact .of_eq (insert_eq_error hrun)

theorem operates_updateExecution (row : Execution) : Operates (updateExecution row) :=
  operates_write (f := fun t _ => t.updateExecution row) fun _ _ => ⟨.updateExecution row, rfl⟩

theorem operates_insertExecution (row : Execution) : Operates (insertExecution row) :=
  operates_insert (g := fun id t => t.insertExecution { row with id }) fun id _ =>
    ⟨.insertExecution { row with id }, rfl⟩

theorem operates_insertWorkflow (row : Workflow) : Operates (insertWorkflow row) :=
  operates_insert (g := fun id t => t.insertWorkflow { row with id }) fun id _ =>
    ⟨.insertWorkflow { row with id }, rfl⟩

theorem operates_updateWorkflow (row : Workflow) : Operates (updateWorkflow row) :=
  operates_write (f := fun t now => t.updateWorkflow row now) fun _ now =>
    ⟨.updateWorkflow row now, rfl⟩

theorem operates_softDeleteWorkflow (id : WorkflowId) : Operates (softDeleteWorkflow id) :=
  operates_write (f := fun t now => t.softDeleteWorkflow id now) fun _ now =>
    ⟨.softDeleteWorkflow id now, rfl⟩

theorem operates_hardDeleteWorkflow (id : WorkflowId) : Operates (hardDeleteWorkflow id) :=
  operates_write (f := fun t _ => t.hardDeleteWorkflow id) fun _ _ => ⟨.hardDeleteWorkflow id, rfl⟩

theorem operates_insertNode (row : Node) : Operates (insertNode row) :=
  operates_insert (g := fun id t => t.insertNode { row with id }) fun id _ =>
    ⟨.insertNode { row with id }, rfl⟩

theorem operates_updateNode (row : Node) : Operates (Storage.updateNode row) :=
  operates_write (f := fun t _ => t.updateNode row) fun _ _ => ⟨.updateNode row, rfl⟩

theorem operates_softDeleteNode (id : NodeId) : Operates (softDeleteNode id) :=
  operates_write (f := fun t _ => t.softDeleteNode id) fun _ _ => ⟨.softDeleteNode id, rfl⟩

theorem operates_hardDeleteNode (id : NodeId) : Operates (hardDeleteNode id) :=
  operates_write (f := fun t _ => t.hardDeleteNode id) fun _ _ => ⟨.hardDeleteNode id, rfl⟩

theorem operates_insertConnection (row : Connection) : Operates (insertConnection row) :=
  operates_insert (g := fun id t => t.insertConnection { row with id }) fun id _ =>
    ⟨.insertConnection { row with id }, rfl⟩

theorem operates_deleteConnection (id : ConnectionId) : Operates (Storage.deleteConnection id) :=
  operates_write (f := fun t _ => t.deleteConnection id) fun _ _ => ⟨.deleteConnection id, rfl⟩

end Storage

/-! ### The reaper -/

open Storage

section Reaper

variable {R : Storage → Storage → Prop} (refl : ∀ s, R s s)
  (trans : ∀ {s s' s''}, R s s' → R s' s'' → R s s'')
  (write : ∀ s row, R s (leftBy (updateExecution row s)))

include refl trans write

/-- What holds over every write of a row holds over `reapAmong`. -/
theorem reapAmong_relates (cutoff : Timestamp) (rows : List Execution) (s : Storage) :
    R s (leftBy (reapAmong cutoff rows s)) := by
  induction rows generalizing s with
  | nil => exact refl s
  | cons e es ih =>
    simp only [reapAmong]
    cases hstale : e.isStale cutoff with
    | false => exact ih s
    | true =>
      have hwrite := write s (e.fail abandoned s.clock)
      rw [if_pos rfl]
      cases h : updateExecution (e.fail abandoned s.clock) s with
      | ok u s' =>
        rw [h] at hwrite
        have hrest := ih s'
        dsimp only
        rw [bind_apply]
        cases hids : reapAmong cutoff es s' <;> rw [hids] at hrest <;> exact trans hwrite hrest
      | error err s' =>
        rw [h] at hwrite
        cases err with
        -- somebody else has closed the row
        | conflict reason => exact trans hwrite (ih s')
        | notFound noun id => exact hwrite
        | backend reason => exact hwrite

/-- `reapStale` looks at the store, and then does as `reapAmong` does. -/
theorem reapStale_relates (look : ∀ (s : Storage) outages, R s { s with outages })
    (workflow : WorkflowId) (olderThan : Int) (s : Storage) :
    R s (leftBy (reapStale workflow olderThan s)) := by
  obtain ⟨outages, hleft⟩ := looks_look .listExecutions (fun t => t.listExecutions workflow) s
  have hlook := look s outages
  rw [← hleft] at hlook
  rw [reapStale, bind_of_ok (get_apply s), bind_apply, Storage.listExecutions]
  cases hrows : Storage.look .listExecutions (fun t => t.listExecutions workflow) s with
  | error e s' =>
    rw [hrows] at hlook
    exact hlook
  | ok rows s' =>
    rw [hrows] at hlook
    exact trans hlook (reapAmong_relates refl trans write _ rows s')

end Reaper

theorem operates_reapStale (workflow : WorkflowId) (olderThan : Int) :
    Operates (reapStale workflow olderThan) :=
  reapStale_relates (R := fun s s' => s.tables.Leads s'.tables) (fun s => .refl s.tables)
    (fun h h' => h.trans h') (fun s row => operates_updateExecution row s)
    (fun s _ => .refl s.tables) workflow olderThan

/-! ### Authors -/

namespace Authoring

theorem operates_access {α : Type} {a : Access α} (h : Operates a) : Operates (access a) := by
  intro s
  have hs := h s
  unfold access
  split <;> next hrun => rwa [hrun] at hs

/-- Every operation of authors `Operates`. -/
theorem operates_run (op : Operation) : Operates op.run := by
  have hpure {α β : Type} {work : Work α} (h : Operates work) (f : α → β) :
      Operates (work >>= fun a => pure (f a)) :=
    h.bind fun a => (looks_pure (f a)).reads.operates
  cases op with
  | get id => exact hpure (looks_get_workflow id).reads.operates _
  | list organization => exact hpure (looks_access (looks_look _ _)).reads.operates _
  | getNode id => exact hpure (looks_getNode_row id).reads.operates _
  | listNodes workflow => exact hpure (looks_access (looks_look _ _)).reads.operates _
  | listConnections workflow => exact hpure (looks_access (looks_look _ _)).reads.operates _
  | validateGraph catalogue workflow =>
    exact hpure (hpure (looks_access (Graph.looks_load _)).reads.operates _) _
  | delete workflow => exact hpure (operates_access (operates_softDeleteWorkflow _)) _
  | hardDelete workflow => exact hpure (operates_access (operates_hardDeleteWorkflow _)) _
  | deleteNode node => exact hpure (operates_access (operates_softDeleteNode _)) _
  | hardDeleteNode node => exact hpure (operates_access (operates_hardDeleteNode _)) _
  | deleteConnection id => exact hpure (operates_access (operates_deleteConnection _)) _
  | create data organization user =>
    refine hpure ((looks_check _).reads.operates.bind fun _ => ?_) _
    split
    · refine (looks_parse _).reads.operates.bind fun _ => ?_
      refine (looks_parseOr _ _).reads.operates.bind fun _ => ?_
      refine looks_get.reads.operates.bind fun _ => ?_
      exact operates_access (operates_insertWorkflow _)
    · exact (looks_throw _).reads.operates
  | update workflow data =>
    refine hpure ((looks_check _).reads.operates.bind fun _ => ?_) _
    refine (looks_parseOr _ _).reads.operates.bind fun _ => ?_
    refine (looks_parseOr _ _).reads.operates.bind fun _ => ?_
    exact operates_access (operates_updateWorkflow _)
  | createNode workflow data =>
    refine hpure ((looks_check _).reads.operates.bind fun _ => ?_) _
    split
    · refine (looks_parse _).reads.operates.bind fun _ => ?_
      exact operates_access (operates_insertNode _)
    · exact (looks_throw _).reads.operates
  | updateNode node data =>
    refine hpure ((looks_check _).reads.operates.bind fun _ => ?_) _
    refine (looks_parseOr _ _).reads.operates.bind fun _ => ?_
    exact operates_access (operates_updateNode _)
  | createConnection workflow data =>
    refine hpure ((looks_check _).reads.operates.bind fun _ => ?_) _
    split
    · exact (looks_throw _).reads.operates
    · refine (looks_requireNode _ _ _).reads.operates.bind fun _ => ?_
      refine (looks_requireSource _ _ _).reads.operates.bind fun _ => ?_
      refine (looks_parseOptional _).reads.operates.bind fun _ => ?_
      exact operates_access (operates_insertConnection _)

end Authoring

/-! ### Runs -/

namespace Engine

variable {engine : Engine} {workflow : WorkflowId} {R : Storage → Storage → Prop} {r : Run}

/-- A relation `R` that holds between the store before and after whatever a run of the workflow
does. -/
structure Carries (engine : Engine) (workflow : WorkflowId) (R : Storage → Storage → Prop) :
    Prop where
  refl (s : Storage) : R s s
  trans {s s' s'' : Storage} : R s s' → R s' s'' → R s s''
  look (s : Storage) (outages : List Outage) : R s { s with outages }
  insert (s : Storage) {row : Execution} (owner : row.workflow = workflow) :
    R s (leftBy (insertExecution row s))
  write (s : Storage) (row : Execution) : R s (leftBy (updateExecution row s))
  action {t : String} {a : Action} (known : engine.catalogue.action? t = some a) (config : Config)
    (context : Context) (s : Storage) : R s (a.run config context s).2

namespace Carries

theorem ran {t : String} {a : Action} {config : Config} {context : Context} {s s' : Storage}
    {verdict : Verdict} (carries : engine.Carries workflow R)
    (known : engine.catalogue.action? t = some a)
    (ran : a.run config context s = (verdict, s')) : R s s' := by
  have h := carries.action known config context s
  rwa [ran] at h

theorem of_looks {ε α : Type} {work : EStateM ε Storage α} (carries : engine.Carries workflow R)
    (looks : Looks work) (s : Storage) : R s (leftBy (work s)) := by
  obtain ⟨outages, hs⟩ := looks s
  rw [hs]
  exact carries.look s outages

theorem of_acts {n : Node} {ending : EStateM.Result ExecutionError Run (Option ConditionType)}
    (carries : engine.Carries workflow R) (h : Acts engine n r ending) :
    R r.world.storage (leftBy ending).world.storage := by
  cases h with
  | trigger => exact carries.refl _
  | condition => exact carries.refl _
  | untyped => exact carries.refl _
  | unknown => exact carries.refl _
  | invalid => exact carries.refl _
  | failed kind typed known valid ran => exact carries.ran known ran
  | crashed kind typed known valid ran => exact carries.ran known ran
  | @unkept t a s result e s' kind typed known valid ran refused =>
    have hwrite := carries.write s (r.execution.recordAction n.id result)
    rw [refused] at hwrite
    exact carries.trans (carries.ran known ran) hwrite
  | @completed t a s result s' ms kind typed known valid ran kept =>
    have hwrite := carries.write s (r.execution.recordAction n.id result)
    rw [kept] at hwrite
    exact carries.trans (carries.ran known ran) hwrite

theorem of_walks {g : Graph} {path : List NodeId} {source : NodeId}
    {branch : Option ConditionType} {edges : List Connection} {ending : Ending}
    (carries : engine.Carries workflow R)
    (h : Walks engine g path source branch edges r ending) :
    R r.world.storage (leftBy ending).world.storage := by
  induction h with
  | done => exact carries.refl _
  | skip untaken rest ih => exact ih
  | refuse => exact carries.refl _
  | fail taken admitted failed => exact carries.of_acts (acts_of_act failed)
  | stop taken admitted acted down ih =>
    have hact := carries.of_acts (acts_of_act acted)
    exact carries.trans hact ih
  | pass taken admitted acted down rest ihdown ihrest =>
    have hact := carries.of_acts (acts_of_act acted)
    exact carries.trans (carries.trans hact ihdown) ihrest

theorem of_traverses {ending : Ending} (carries : engine.Carries workflow R)
    (h : Traverses engine workflow r ending) :
    R r.world.storage (leftBy ending).world.storage := by
  have hload := carries.of_looks (Graph.looks_load workflow) r.world.storage
  cases h with
  | reserved => exact carries.refl _
  | unread free refused => rwa [refused] at hload
  | unstarted free loaded => rwa [loaded] at hload
  | walked free loaded started walk =>
    rw [loaded] at hload
    exact carries.trans hload (carries.of_walks walk)

/-- What `Carries` over the parts of a run holds over `execute`. -/
theorem execute {workflow : Workflow} (carries : engine.Carries workflow.id R)
    (triggerType : String) (payload : Fields) (w : World) :
    R w.storage (leftBy (engine.execute workflow triggerType payload w)).storage := by
  have hinsert : R w.storage (leftBy (insertExecution
      (Execution.start Uuid.nil workflow.id triggerType payload w.now) w.storage)) :=
    carries.insert w.storage rfl
  rw [execute_apply]
  cases hrow : insertExecution (Execution.start Uuid.nil workflow.id triggerType payload w.now)
      w.storage with
  | error e s =>
    rw [hrow] at hinsert
    rw [begin_of_refused hrow]
    exact hinsert
  | ok e s =>
    rw [hrow] at hinsert
    rw [begin_of_inserted hrow]
    dsimp only
    rw [leftBy_ok, storage_conclude]
    have hrun := carries.of_traverses (traverses_traverse engine workflow.id
      ⟨{ w with storage := s }.report e.id (.executionStarted workflow.id triggerType), e⟩)
    exact carries.trans (carries.trans hinsert hrun) (carries.write _ _)

end Carries

/-- Every action `Leads` from every store to the one it leaves. -/
def Honest (engine : Engine) : Prop :=
  ∀ actionType action, engine.catalogue.action? actionType = some action →
    ∀ config context (s : Storage), s.tables.Leads (action.run config context s).2.tables

/-- A run of honest actions `Leads` from tables to tables. -/
theorem leads_execute (honest : engine.Honest) (workflow : Workflow) (triggerType : String)
    (payload : Fields) (w : World) :
    w.storage.tables.Leads
      (leftBy (engine.execute workflow triggerType payload w)).storage.tables := by
  have carries : engine.Carries workflow.id fun s s' => s.tables.Leads s'.tables :=
    { refl s := .refl s.tables
      trans h h' := h.trans h'
      look s _ := .refl s.tables
      insert s row _ := operates_insertExecution row s
      write s row := operates_updateExecution row s
      action known := honest _ _ known }
  exact carries.execute triggerType payload w

/-! ### Rounds of runs -/

variable {triggerType : String} {payload : Fields} {T : World → World → Prop}

/-- What holds over each of some runs holds over `executeAll` of them. -/
theorem executeAll_relates (refl : ∀ w, T w w) (trans : ∀ {w w' w''}, T w w' → T w' w'' → T w w'')
    {workflows : List Workflow}
    (each : ∀ workflow ∈ workflows, ∀ w,
      T w (leftBy (engine.execute workflow triggerType payload w))) (w : World) :
    T w (leftBy (engine.executeAll triggerType payload workflows w)) := by
  induction workflows generalizing w with
  | nil => exact refl w
  | cons workflow workflows ih =>
    have hfirst := each workflow (List.mem_cons_self ..) w
    have hrest := ih fun x hx => each x (List.mem_cons_of_mem _ hx)
    rw [executeAll, bind_apply]
    cases hrun : engine.execute workflow triggerType payload w with
    | error e w' =>
      rw [hrun] at hfirst
      exact hfirst
    | ok id w' =>
      rw [hrun] at hfirst
      have hothers := hrest w'
      dsimp only
      rw [bind_apply]
      cases hruns : engine.executeAll triggerType payload workflows w' <;>
        rw [hruns] at hothers <;> exact trans hfirst hothers

/-- What holds over each run of a live workflow holds over `fire`. -/
theorem fire_relates (refl : ∀ w, T w w) (trans : ∀ {w w' w''}, T w w' → T w' w'' → T w w'')
    (look : ∀ w outages, T w { w with storage := { w.storage with outages } })
    {organization : OrganizationId} {triggerType : TriggerType} (w : World)
    (each : ∀ workflow ∈ w.storage.tables.workflows, workflow.deleted = false → ∀ w,
      T w (leftBy (engine.execute workflow (Vocabulary.text triggerType) payload w))) :
    T w (leftBy (engine.fire organization triggerType payload w)) := by
  have hlooks : Looks (findActiveWorkflows organization triggerType) :=
    (looks_look _ _).bind fun _ => looks_pure _
  obtain ⟨outages, hleft⟩ := hlooks w.storage
  rw [fire, bind_apply, World.access]
  cases hfound : findActiveWorkflows organization triggerType w.storage with
  | error e s =>
    rw [hfound] at hleft
    obtain rfl : s = { w.storage with outages } := hleft
    exact look w outages
  | ok workflows s =>
    rw [hfound] at hleft
    obtain rfl : s = { w.storage with outages } := hleft
    obtain ⟨listed, s₁, hlisted, hactive⟩ := bind_eq_ok_iff.mp hfound
    have hlisted := look_eq_ok hlisted
    obtain ⟨rfl, -⟩ := EStateM.Result.ok.inj hactive
    refine trans (look w outages) (executeAll_relates refl trans ?_ _)
    intro workflow hworkflow
    rw [hlisted] at hworkflow
    -- only workflows that were live when they were listed are run
    obtain ⟨hmem, hlive⟩ := List.mem_filter.mp (List.mem_filter.mp hworkflow).1
    exact each workflow hmem (by simpa using (Bool.and_eq_true_iff.mp hlive).2)

end Engine

end TriggerFlow
