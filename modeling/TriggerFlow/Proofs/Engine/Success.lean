import TriggerFlow.Proofs.Engine.Causes
import TriggerFlow.Proofs.Inspection
/-!
# Runs that cannot fail

A graph is `Graph.Runnable` if the trigger leads somewhere, no connection dangles, no action node
has a warning and `LiveEdge` leads nowhere back.  With reliable actions (`Catalogue.Reliable`) and
with room for all nodes of the graph on one path, a run of such a graph completes, and its row says
so (`execute_of_runnable`).

The proof goes through `Blames`: whatever there might be to blame for a failure is excluded by one
of the conditions.
-/

namespace TriggerFlow

/-- With settings that `validate` accepts, every known action answers `.done`, and changes nothing
in the store but its clock. -/
structure Catalogue.Reliable (catalogue : Catalogue) : Prop where
  done : ∀ actionType action, catalogue.action? actionType = some action →
    ∀ config context s, action.validate config = [] →
      ∃ result, (action.run config context s).1 = .done result
  tick : ∀ actionType action, catalogue.action? actionType = some action →
    ∀ config context s, ∃ clock, (action.run config context s).2 = { s with clock }

namespace Graph

variable {g : Graph} {catalogue : Catalogue} {path : List NodeId}

/-- Nothing in a graph keeps a run of it from its end: `Node.warnings` are empty, and the rest
concerns connections. -/
structure Runnable (g : Graph) (catalogue : Catalogue) : Prop where
  started : g.startEdges ≠ []
  anchored : ∀ c ∈ g.connections, c.target ∈ g.ids
  able : ∀ n ∈ g.nodes, n.warnings catalogue = []
  acyclic : ∀ id, ¬ Relation.TransGen g.LiveEdge id id

/-- Below an `IsPath`, whatever a connection leads to is entered, if the bound has room for all live
nodes. -/
theorem Runnable.entry_eq_ok {engine : Engine} (h : g.Runnable catalogue)
    (room : g.ids.length ≤ engine.maxDepth) (on_path : g.IsPath path.reverse) {c : Connection}
    (edge : c ∈ g.edgesBelow path) : ∃ n, engine.entry g path c.target = .ok n := by
  have hlive := h.anchored c (mem_connections_of_edgesBelow edge)
  have hnew : c.target ∉ path := fun hback => h.acyclic _ (on_path.cycle edge hback)
  -- with the node the path is still no longer than there are live nodes
  have hlength := (on_path.push edge hnew hlive).length_le
  rw [List.length_reverse, List.length_cons] at hlength
  obtain ⟨n, hn⟩ := Option.isSome_iff_exists.mp (isSome_node?_iff.mpr hlive)
  exact ⟨n, Engine.entry_eq_ok_iff.mpr ⟨hnew, by omega, hn⟩⟩

end Graph

namespace Engine

variable {engine : Engine} {g : Graph} {hs : List Happening} {e : ExecutionError} {r r' : Run}
  {id : ExecutionId} {count : Nat}

theorem considerate_of_reliable (reliable : engine.catalogue.Reliable) (id : ExecutionId) :
    engine.Considerate id := by
  intro actionType action known config context s hruns
  obtain ⟨clock, htick⟩ := reliable.tick _ _ known config context s
  rw [htick]
  exact ⟨hruns.calm, hruns.running⟩

/-! ### Nothing is to blame -/

/-- An action node without warnings ends well under a reliable catalogue. -/
theorem not_acts_error {n : Node} (reliable : engine.catalogue.Reliable)
    (able : n.warnings engine.catalogue = []) (sound : r.Sound id) :
    ¬ Acts engine n r (.error e r') := by
  rw [Node.warnings_eq_nil_iff] at able
  intro hacts
  cases hacts with
  | untyped kind untyped => simp [kind, untyped] at able
  | unknown kind typed unknown => simp [kind, typed, unknown] at able
  | invalid kind typed known invalid => exact invalid (by simpa [kind, typed, known] using able)
  | failed kind typed known valid ran =>
    obtain ⟨result, hdone⟩ := reliable.done _ _ known _ r.execution.context r.world.storage valid
    rw [ran] at hdone
    cases hdone
  | crashed kind typed known valid ran =>
    obtain ⟨result, hdone⟩ := reliable.done _ _ known _ r.execution.context r.world.storage valid
    rw [ran] at hdone
    cases hdone
  | unkept kind typed known valid ran refused =>
    exact no_store_error_of_acts (considerate_of_reliable reliable id) sound
      (.unkept kind typed known valid ran refused)

theorem not_blames {I : Run → Prop} (runnable : g.Runnable engine.catalogue)
    (reliable : engine.catalogue.Reliable) (room : g.ids.length ≤ engine.maxDepth)
    (hsound : ∀ r, I r → r.Sound id) : ¬ Blames engine g I hs e := by
  intro hblames
  cases hblames with
  | refused on_path edge refusal =>
    obtain ⟨n, hn⟩ := runnable.entry_eq_ok room on_path edge
    rw [hn] at refusal
    cases refusal
  | failed node entered kept acted =>
    exact not_acts_error reliable (runnable.able _ (List.mem_of_find?_eq_some node))
      (hsound _ kept) acted

/-! ### The number of rows -/

theorem length_executions_updateExecution {row : Execution} {s s' : Storage}
    (h : Storage.updateExecution row s = .ok () s') :
    s'.tables.executions.length = s.tables.executions.length := by
  obtain ⟨stored, -, -, htables⟩ := Storage.updateExecution_eq_ok h
  rw [htables, Tables.length_replaceFirst]

/-- The run is `Run.Sound`, and its store has `count` executions. -/
structure Progresses (id : ExecutionId) (count : Nat) (r : Run) : Prop where
  sound : r.Sound id
  count_eq : r.world.storage.tables.executions.length = count

theorem keeps_progresses (reliable : engine.catalogue.Reliable) :
    Keeps engine (Progresses id count) := by
  refine ⟨fun r happening h => ⟨sound_after h.sound happening, h.count_eq⟩, ?_⟩
  intro n r branch r' h hacts
  refine ⟨sound_of_acts (considerate_of_reliable reliable id) h.sound hacts, ?_⟩
  cases hacts with
  | trigger => exact h.count_eq
  | condition => exact h.count_eq
  | @completed t a s result s' ms kind typed known valid ran kept =>
    obtain ⟨clock, htick⟩ :=
      reliable.tick _ _ known n.config r.execution.context r.world.storage
    rw [ran] at htick
    change s = _ at htick
    apply Eq.trans (length_executions_updateExecution kept)
    rw [htick]
    exact h.count_eq

/-! ### Whole runs -/

theorem traverse_of_runnable {workflow : WorkflowId} (reliable : engine.catalogue.Reliable)
    (runnable : (Graph.ofTables r.world.storage.tables workflow).Runnable engine.catalogue)
    (room : (Graph.ofTables r.world.storage.tables workflow).ids.length ≤ engine.maxDepth)
    (free : Fields.has actionsKey r.execution.triggerData = false) (h : Progresses id count r) :
    ∃ r', engine.traverse workflow r = .ok () r' ∧ Progresses id count r' := by
  have hload := Graph.load_of_calm h.sound.stored.calm workflow
  obtain ⟨hs, -, hok, hcauses⟩ := (traverses_traverse engine workflow r).blames
    (keeps_progresses reliable) (by
      intro s g hs
      rw [hload] at hs
      obtain ⟨-, rfl⟩ := EStateM.Result.ok.inj hs
      exact h)
  cases hending : engine.traverse workflow r with
  | ok u r' => exact ⟨r', rfl, hok r' hending⟩
  | error e r' =>
    exfalso
    rcases hcauses e r' hending with ⟨-, hreserved⟩ | ⟨e', s, -, hrefused⟩ | ⟨-, hidle⟩ | hblames
    · simp [free] at hreserved
    · simp [hload] at hrefused
    · exact runnable.started hidle
    · exact not_blames runnable reliable room (fun _ h => Progresses.sound h) hblames

/-- In a store without outages, a run of a `Runnable` graph completes if the bound has room for its
live nodes: it leaves one row more, and the row under its identifier says `completed`. -/
theorem execute_of_runnable (engine : Engine) (workflow : Workflow) (triggerType : String)
    {payload : Fields} {w : World} (calm : w.storage.outages = [])
    (new : ∀ row ∈ w.storage.tables.executions, row.id ≠ (w.storage.ids.next .execution).1)
    (reliable : engine.catalogue.Reliable)
    (runnable : (Graph.ofTables w.storage.tables workflow.id).Runnable engine.catalogue)
    (room : (Graph.ofTables w.storage.tables workflow.id).ids.length ≤ engine.maxDepth)
    (free : Fields.has actionsKey payload = false) :
    ∃ id w' e, engine.execute workflow triggerType payload w = .ok id w' ∧
      w'.storage.outages = [] ∧
      w'.storage.tables.executions.length = w.storage.tables.executions.length + 1 ∧
      w'.storage.tables.getExecution id = some e ∧ e.status = .completed ∧ e.error = none := by
  obtain ⟨r, hbegin, hid, hpayload, -, hsound⟩ := begin_of_calm workflow triggerType payload calm
  have hgraph := ofTables_begin hbegin workflow.id
  rw [← hid] at new
  -- the run begins with a row of its own
  have hprogress : Progresses r.execution.id (w.storage.tables.executions.length + 1) r := by
    obtain ⟨s, hinsert, hworld, -⟩ := begin_eq_ok hbegin
    obtain ⟨-, htables⟩ := Storage.insertExecution_eq_ok hinsert
    refine ⟨hsound new, ?_⟩
    rw [hworld, World.report, htables]
    simp
  rw [← hgraph] at runnable room
  obtain ⟨r', htraverse, ⟨hsound', hcount⟩⟩ :=
    traverse_of_runnable reliable runnable room (hpayload ▸ free) hprogress
  -- the row is still in progress and can be closed
  set row := r'.execution.complete r'.world.now with hrow
  obtain ⟨stored, t, hwrite, hfound⟩ := Storage.updateExecution_of_runs row
    (s := r'.world.storage) (hsound'.id_eq.symm ▸ hsound'.stored)
  refine ⟨r.execution.id, conclude w.now (.ok () r'), Tables.written stored row, ?_, ?_, ?_, ?_⟩
  · rw [execute_apply, hbegin, ← htraverse]
  all_goals
    have hconclude : (conclude w.now (.ok () r')).storage
        = { r'.world.storage with tables := t } := by
      rw [storage_conclude]
      exact congrArg leftBy hwrite
    rw [hconclude]
  · exact hsound'.stored.calm
  · have hlength := length_executions_updateExecution hwrite
    exact hlength.trans hcount
  · refine ⟨?_, rfl, hsound'.error⟩
    rw [← hsound'.id_eq]
    exact hfound

end Engine

end TriggerFlow
