import TriggerFlow.Proofs.Context.Results
import TriggerFlow.Proofs.Engine.Deeds
import TriggerFlow.Proofs.Engine.Row
/-!
# What a run knows

At each of its deeds a run knows the payload and the results that it has got so far, and
`Execution.contextOf payload results` is what it passes on to actions and writes on its row
(`contexts_hold_results`).  The invariant over the steps of a run says how its execution differs
from the one it began with: in its context, which is that of the results so far, and in nothing
else (`Steps.contexts`).
-/

namespace TriggerFlow

/-! ### Facts about a deed and those before it -/

/-- The relation `P` holds between every deed of the second list and the deeds before it, of which
the first list are the earliest. -/
def Deed.Along (P : List Deed → Deed → Prop) : List Deed → List Deed → Prop
  | _, [] => True
  | past, d :: ds => P past d ∧ Along P (past ++ [d]) ds

theorem Deed.along_append {P : List Deed → Deed → Prop} {past ds ds' : List Deed} :
    Along P past (ds ++ ds') ↔ Along P past ds ∧ Along P (past ++ ds) ds' := by
  induction ds generalizing past with
  | nil => simp [Along]
  | cons d ds ih => simp [Along, ih, and_assoc]

/-- Reads `Along` off at one deed `d`. -/
theorem Deed.Along.holds {P : List Deed → Deed → Prop} {before after : List Deed} {d : Deed}
    (h : Along P [] (before ++ d :: after)) : P before d := by
  obtain ⟨-, hd, -⟩ := along_append.mp h
  exact hd

/-- A deed fits a payload and a context: an action is called on `context`, a row is inserted or
written with both, and when `actionCompleted` is reported the stored row is running and has
`context`. -/
def Deed.Fits (payload : Fields) (context : Context) : Deed → Prop
  | inserted row => row.context = context ∧ row.triggerData = payload
  | called _ given _ => given = context
  | wrote row _ => row.context = context ∧ row.triggerData = payload
  | reported (.actionCompleted ..) stored =>
    ∃ row, stored = some row ∧ row.status = .running ∧ row.context = context
  | reported _ _ => True

theorem Deed.fits_of_isMove {payload : Fields} {context : Context} {h : Happening}
    {stored : Option Execution} (hmove : h.isMove = true) :
    (reported h stored).Fits payload context := by
  cases h with
  | actionCompleted => simp [Happening.isMove] at hmove
  | _ => trivial

/-- A deed fits the payload and the results of the deeds before it, `resultsOf past`. -/
def Deed.FitsResults (payload : Fields) (past : List Deed) (d : Deed) : Prop :=
  d.Fits payload (Execution.contextOf payload (resultsOf past))

theorem resultsOf_append (ds ds' : List Deed) :
    resultsOf (ds ++ ds') = resultsOf ds ++ resultsOf ds' := List.filterMap_append

namespace Engine

variable {engine : Engine} {r : Run} {ds : List Deed} {ending : Ending} {payload : Fields}

/-- After the deeds `past`, the execution of a run in progress holds the payload, and the context
that it makes with `resultsOf past`. -/
structure Knows (payload : Fields) (past : List Deed) (r : Run) : Prop where
  context : r.execution.context = Execution.contextOf payload (resultsOf past)
  triggerData : r.execution.triggerData = payload
  running : r.execution.status = .running

/-- Deeds without results leave a run with what it knew. -/
theorem Knows.more {past ds : List Deed} {r' : Run} (knows : Knows payload past r)
    (same : r'.execution = r.execution) (hds : resultsOf ds = []) :
    Knows payload (past ++ ds) r' := by
  refine ⟨?_, ?_, ?_⟩
  · rw [same, resultsOf_append, hds, List.append_nil]
    exact knows.context
  · rw [same]
    exact knows.triggerData
  · rw [same]
    exact knows.running

/-- Recording the result of a call is knowing it: `recordAction` and `contextOf` agree, if the
payload leaves `actionsKey` free. -/
theorem Knows.recording {past : List Deed} (free : Fields.has actionsKey payload = false)
    (knows : Knows payload past r) (node : NodeId) (context : Context) (v : Json) :
    Knows payload (past ++ [.called node context (.done v)]) (r.recording node v) := by
  refine ⟨?_, knows.triggerData, knows.running⟩
  rw [resultsOf_append, Run.recording, Execution.recordAction, knows.context]
  exact Execution.withResult_contextOf free node v

theorem Steps.contexts (h : Steps engine r ds ending) {past : List Deed}
    (free : Fields.has actionsKey payload = false) (knows : Knows payload past r) :
    Deed.Along (Deed.FitsResults payload) past ds ∧ Knows payload (past ++ ds) (leftBy ending) := by
  induction h generalizing past with
  | done => exact ⟨trivial, knows.more rfl rfl⟩
  | halt => exact ⟨trivial, knows.more rfl rfl⟩
  | look same rest ih => exact ih ⟨knows.context, knows.triggerData, knows.running⟩
  | @report r h ds ending move rest ih =>
    have hnext : Knows payload (past ++ [r.reporting h]) (r.after h) := knows.more rfl rfl
    obtain ⟨halong, hends⟩ := ih hnext
    rw [List.append_assoc] at hends
    exact ⟨⟨Deed.fits_of_isMove move, halong⟩, hends⟩
  | @fail r node t a config verdict s e known ran blame =>
    refine ⟨⟨knows.context, trivial⟩, knows.more rfl ?_⟩
    cases verdict with
    | done v => simp [Verdict.blame?] at blame
    | failed error => rfl
    | crashed message => rfl
  | @refuse r node t a config v s e s' known ran refused =>
    have hdone := knows.recording free node r.execution.context v
    have hends : Knows payload
        (past ++ [.called node r.execution.context (.done v)] ++
          [.wrote (r.execution.recordAction node v) false])
        ((r.recording node v).withStorage s') := hdone.more rfl rfl
    rw [List.append_assoc] at hends
    exact ⟨⟨knows.context, ⟨hdone.context, hdone.triggerData⟩, trivial⟩, hends⟩
  | @complete r node t a config v s s' ms ds ending known ran kept rest ih =>
    -- the call adds its result; the write and the report add none
    have hdone := knows.recording free node r.execution.context v
    have hwritten : Knows payload
        (past ++ [.called node r.execution.context (.done v)] ++
          [.wrote (r.execution.recordAction node v) true])
        ((r.recording node v).withStorage s') := hdone.more rfl rfl
    have hreported : Knows payload
        (past ++ [.called node r.execution.context (.done v)] ++
          [.wrote (r.execution.recordAction node v) true] ++
          [((r.recording node v).withStorage s').reporting (.actionCompleted node t ms)])
        (((r.recording node v).withStorage s').after (.actionCompleted node t ms)) :=
      hwritten.more rfl rfl
    obtain ⟨halong, hends⟩ := ih hreported
    obtain ⟨stored, hstored⟩ := Storage.getExecution_of_updateExecution kept
    refine ⟨⟨knows.context, ⟨hdone.context, hdone.triggerData⟩, ?_, halong⟩, ?_⟩
    · -- what has just been written is what the report finds
      exact ⟨_, hstored, hdone.running, hwritten.context⟩
    · rwa [List.append_assoc, List.append_assoc, List.append_assoc] at hends

/-- A run that begins knows its payload. -/
theorem knows_of_begin {workflow : Workflow} {triggerType : String} {w w' : World}
    (h : Run.begin workflow triggerType payload w = .ok r w') : Knows payload [] r := by
  obtain ⟨s, hinsert, -, -⟩ := begin_eq_ok h
  obtain ⟨hrow, -⟩ := Storage.insertExecution_eq_ok hinsert
  refine ⟨?_, ?_, ?_⟩ <;> rw [hrow] <;> rfl

theorem fits_closing {past : List Deed} (knows : Knows payload past (leftBy ending))
    (accepted : Bool) : Deed.FitsResults payload past (.wrote (closing ending) accepted) :=
  ⟨(closing_context ending).trans knows.context,
    (closing_triggerData ending).trans knows.triggerData⟩

theorem fits_outcome (past : List Deed) (started : Timestamp) (stored : Option Execution) :
    Deed.FitsResults payload past (.reported (outcome started ending) stored) := by
  cases ending with
  | ok u r => trivial
  | error e r => trivial

/-- The relation `FitsResults` holds along all deeds of a run. -/
theorem along_deeds (engine : Engine) (workflow : Workflow) (triggerType : String)
    (free : Fields.has actionsKey payload = false) (w : World) :
    Deed.Along (Deed.FitsResults payload) [] (engine.deeds workflow triggerType payload w) := by
  unfold deeds
  cases hbegin : Run.begin workflow triggerType payload w with
  | error e w' => trivial
  | ok r w' =>
    dsimp only
    have hbegun := knows_of_begin hbegin
    have hstarted : Knows payload
        ([] ++ [.inserted r.execution, r.reporting (.executionStarted workflow.id triggerType)])
        r := hbegun.more rfl rfl
    obtain ⟨halong, hends⟩ := (steps_traverse engine workflow.id r).contexts free hstarted
    have hreported : Knows payload
        ([] ++ [.inserted r.execution, r.reporting (.executionStarted workflow.id triggerType)] ++
          engine.deedsTraversing workflow.id r ++
          [(leftBy (engine.traverse workflow.id r)).reporting
            (outcome w.now (engine.traverse workflow.id r))])
        (leftBy (engine.traverse workflow.id r)) := hends.more rfl rfl
    refine ⟨⟨hbegun.context, hbegun.triggerData⟩, trivial, Deed.along_append.mpr ⟨halong, ?_⟩⟩
    exact ⟨fits_outcome _ _ _, fits_closing hreported _, trivial⟩

/-- Every deed of a run fits the payload and the results before it: at every call of an action,
every write of the row and every `actionCompleted` the context is `contextOf payload (resultsOf
before)`.  The deeds are those of the engine: their reports are the events, and `Steps` ties those
of the traversal to the states between which they happen. -/
theorem contexts_hold_results (engine : Engine) (workflow : Workflow) (triggerType : String)
    {payload : Fields} (free : Fields.has actionsKey payload = false) (w : World) :
    (∀ before d after,
      engine.deeds workflow triggerType payload w = before ++ d :: after →
      d.Fits payload (Execution.contextOf payload (resultsOf before))) ∧
    (∃ news, (leftBy (engine.execute workflow triggerType payload w)).events = w.events ++ news ∧
      news.map Event.happening = happeningsOf (engine.deeds workflow triggerType payload w)) ∧
    ∀ r w₀, Run.begin workflow triggerType payload w = .ok r w₀ →
      Steps engine r (engine.deedsTraversing workflow.id r) (engine.traverse workflow.id r) ∧
      (leftBy (engine.execute workflow triggerType payload w)).storage =
        leftBy (Storage.updateExecution (closing (engine.traverse workflow.id r))
          (leftBy (engine.traverse workflow.id r)).world.storage) := by
  refine ⟨?_, events_deeds engine workflow triggerType payload w, ?_⟩
  · intro before d after hsplit
    have halong := along_deeds engine workflow triggerType free w
    rw [hsplit] at halong
    exact halong.holds
  · intro r w₀ hbegin
    refine ⟨steps_traverse engine workflow.id r, ?_⟩
    rw [execute_apply, hbegin]
    exact storage_conclude w.now (engine.traverse workflow.id r)

/-- An action that always answers with the same note. -/
def noteAction : Action :=
  { id := "note", name := "Note", description := "", category := defaultCategory, schema := []
    validate := fun _ => [], run := fun _ _ s => (.done (.string "noted"), s) }

def noteEngine : Engine := ⟨⟨[], [noteAction]⟩, 64⟩

def noteWorkflow : Workflow := .new Uuid.nil Uuid.nil Uuid.nil "note" .eventCreated default

def noteNode : Node := .action (Uuid.ofHalves 0 1) Uuid.nil "note"

/-- A store in which the trigger of a workflow leads to the action. -/
def noteStorage : Storage :=
  { Storage.fresh (.ofNames fun _ n => Uuid.ofHalves 0 n) default with
    tables := { Tables.empty with
      nodes := [noteNode]
      connections := [.start Uuid.nil Uuid.nil noteNode.id] } }

theorem noteStorage_startEdges :
    (Graph.ofTables noteStorage.tables noteWorkflow.id).startEdges =
      [.start Uuid.nil Uuid.nil noteNode.id] := by
  simp [Graph.startEdges, Graph.ofTables, Graph.ofRows, Tables.listNodes, Tables.listConnections,
    noteStorage, noteNode, noteWorkflow, Workflow.new, Node.action, Node.new, Connection.start,
    Graph.tombstones, Graph.touches]

/-- A run of `noteStorage` on a free payload calls the action. -/
theorem noteAction_calls {payload : Fields} (free : Fields.has actionsKey payload = false) :
    ∃ context, .called noteNode.id context (.done (.string "noted")) ∈
      noteEngine.deeds noteWorkflow "event.created" payload (World.ofStorage noteStorage) := by
  obtain ⟨r, hbegin, -, hdata, calm, -⟩ := begin_of_calm noteWorkflow "event.created" payload
    (w := World.ofStorage noteStorage) rfl
  have hgraph := ofTables_begin hbegin noteWorkflow.id
  have hload := Graph.load_of_calm calm noteWorkflow.id
  refine ⟨r.execution.context, mem_deeds_of_start hbegin (hdata ▸ free) hload ?_⟩
  rw [hgraph, show (World.ofStorage noteStorage).storage = noteStorage from rfl,
    noteStorage_startEdges]
  have admitted : noteEngine.entry (Graph.ofTables noteStorage.tables noteWorkflow.id) []
    noteNode.id = .ok noteNode := rfl
  exact mem_deedsFollowing [] rfl admitted (List.mem_cons_self ..)

/-- In a run on a payload with a name, the action is called on `contextOf` this payload and no
results. -/
theorem noteAction_called :
    ∃ before after, noteEngine.deeds noteWorkflow "event.created" [("name", .string "a")]
        (World.ofStorage noteStorage) =
          before ++ .called noteNode.id
            (Execution.contextOf [("name", .string "a")] (resultsOf before))
            (.done (.string "noted")) :: after := by
  have free : Fields.has actionsKey [("name", .string "a")] = false := by decide +kernel
  obtain ⟨context, hcalled⟩ := noteAction_calls free
  obtain ⟨before, after, hsplit⟩ := List.append_of_mem hcalled
  have hfits := (contexts_hold_results noteEngine noteWorkflow "event.created" free
    (World.ofStorage noteStorage)).1 _ _ _ hsplit
  have hfits : context = Execution.contextOf _ (resultsOf before) := hfits
  exact ⟨before, after, by rw [hsplit, hfits]⟩

end Engine

end TriggerFlow
