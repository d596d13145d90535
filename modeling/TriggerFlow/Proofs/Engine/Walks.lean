import TriggerFlow.Engine
import TriggerFlow.Proofs.Store.Access
/-!
# Runs as derivations

What a run can do is said once, by three relations with one constructor for each way in which things
go: `Acts` for a node that acts, `Walks` for a list of connections that is followed, and `Traverses`
for a whole run.  The engine does what they say (`acts_act`, `walks_follow`, `traverses_traverse`),
so that facts about runs are proved by cases and by one induction over derivations.
-/

namespace TriggerFlow

/-- The run once the result of a node's action is recorded in its execution. -/
def Run.recording (r : Run) (node : NodeId) (result : Json) : Run :=
  { r with execution := r.execution.recordAction node result }

namespace Engine

abbrev Ending := EStateM.Result ExecutionError Run Unit

/-! ### A node acts -/

/-- What `Engine.act` can do with the node `n`, with one constructor for each way it can end. -/
inductive Acts (engine : Engine) (n : Node) :
    Run → EStateM.Result ExecutionError Run (Option ConditionType) → Prop
  | trigger {r} (kind : n.nodeType = .trigger) : Acts engine n r (.ok none r)
  | condition {r} {result : Bool} (kind : n.nodeType = .condition)
      (value : Condition.evaluate n.config r.execution.context = result) :
      Acts engine n r
        (.ok (some (ConditionType.ofBool result)) (r.after (.conditionEvaluated n.id result)))
  | untyped {r} (kind : n.nodeType = .action) (untyped : n.actionType = none) :
      Acts engine n r (.error (.missingActionType n.id) r)
  | unknown {r t} (kind : n.nodeType = .action) (typed : n.actionType = some t)
      (unknown : engine.catalogue.action? t = none) :
      Acts engine n r (.error (.unknownActionType t) r)
  | invalid {r t a} (kind : n.nodeType = .action) (typed : n.actionType = some t)
      (known : engine.catalogue.action? t = some a) (invalid : a.validate n.config ≠ []) :
      Acts engine n r (.error (.invalidActionConfig (a.validate n.config)) r)
  | failed {r t a s e} (kind : n.nodeType = .action) (typed : n.actionType = some t)
      (known : engine.catalogue.action? t = some a) (valid : a.validate n.config = [])
      (ran : a.run n.config r.execution.context r.world.storage = (.failed e, s)) :
      Acts engine n r (.error (.actionFailed n.id e) (r.withStorage s))
  | crashed {r t a s message} (kind : n.nodeType = .action) (typed : n.actionType = some t)
      (known : engine.catalogue.action? t = some a) (valid : a.validate n.config = [])
      (ran : a.run n.config r.execution.context r.world.storage = (.crashed message, s)) :
      Acts engine n r (.error (.crashed message) (r.withStorage s))
  | unkept {r t a s result e s'} (kind : n.nodeType = .action) (typed : n.actionType = some t)
      (known : engine.catalogue.action? t = some a) (valid : a.validate n.config = [])
      (ran : a.run n.config r.execution.context r.world.storage = (.done result, s))
      (refused : Storage.updateExecution (r.execution.recordAction n.id result) s = .error e s') :
      Acts engine n r (.error (.store e) ((r.recording n.id result).withStorage s'))
  | completed {r t a s result s' ms} (kind : n.nodeType = .action) (typed : n.actionType = some t)
      (known : engine.catalogue.action? t = some a) (valid : a.validate n.config = [])
      (ran : a.run n.config r.execution.context r.world.storage = (.done result, s))
      (kept : Storage.updateExecution (r.execution.recordAction n.id result) s = .ok () s') :
      Acts engine n r
        (.ok none (((r.recording n.id result).withStorage s').after (.actionCompleted n.id t ms)))

/-! ### Connections are followed -/

/-- What `Engine.follow` can do with connections that leave `source`, below the nodes of `path`.  No
connection may be left (`done`), or the first belongs to the other branch (`skip`), leads to a node
that is not admitted (`refuse`) or that fails to act (`fail`), or the node acts and the run ends
further down (`stop`) or goes on with the next connection (`pass`). -/
inductive Walks (engine : Engine) (g : Graph) :
    List NodeId → NodeId → Option ConditionType → List Connection → Run → Ending → Prop
  | done {path source branch r} : Walks engine g path source branch [] r (.ok () r)
  | skip {path source branch c cs r ending} (untaken : takes branch c = false)
      (rest : Walks engine g path source branch cs (r.after (.edgeSkipped source c.target))
        ending) :
      Walks engine g path source branch (c :: cs) r ending
  | refuse {path source branch c cs r e} (taken : takes branch c = true)
      (refusal : engine.entry g path c.target = .error e) :
      Walks engine g path source branch (c :: cs) r (.error e r)
  | fail {path source branch c cs r n e r'} (taken : takes branch c = true)
      (admitted : engine.entry g path c.target = .ok n)
      (failed : engine.act n
        (r.after (.nodeEntered c.target (Vocabulary.text n.nodeType) path.length)) = .error e r') :
      Walks engine g path source branch (c :: cs) r (.error e r')
  | stop {path source branch c cs r n below r' e r''} (taken : takes branch c = true)
      (admitted : engine.entry g path c.target = .ok n)
      (acted : engine.act n
        (r.after (.nodeEntered c.target (Vocabulary.text n.nodeType) path.length)) = .ok below r')
      (down : Walks engine g (c.target :: path) c.target below (g.outgoing c.target) r'
        (.error e r'')) :
      Walks engine g path source branch (c :: cs) r (.error e r'')
  | pass {path source branch c cs r n below r' r'' ending} (taken : takes branch c = true)
      (admitted : engine.entry g path c.target = .ok n)
      (acted : engine.act n
        (r.after (.nodeEntered c.target (Vocabulary.text n.nodeType) path.length)) = .ok below r')
      (down : Walks engine g (c.target :: path) c.target below (g.outgoing c.target) r'
        (.ok () r''))
      (rest : Walks engine g path source branch cs r'' ending) :
      Walks engine g path source branch (c :: cs) r ending

/-! ### A whole run -/

/-- What `Engine.traverse` can do: the payload is refused, the graph is not read or has no start, or
its `startEdges` are followed. -/
inductive Traverses (engine : Engine) (workflow : WorkflowId) : Run → Ending → Prop
  | reserved {r} (reserved : Fields.has actionsKey r.execution.triggerData = true) :
      Traverses engine workflow r (.error (.reservedContextKey actionsKey) r)
  | unread {r e s} (free : Fields.has actionsKey r.execution.triggerData = false)
      (refused : Graph.load workflow r.world.storage = .error e s) :
      Traverses engine workflow r (.error (.store e) (r.withStorage s))
  | unstarted {r g s} (free : Fields.has actionsKey r.execution.triggerData = false)
      (loaded : Graph.load workflow r.world.storage = .ok g s) (idle : g.startEdges = []) :
      Traverses engine workflow r (.error .noStartNode (r.withStorage s))
  | walked {r g s ending} (free : Fields.has actionsKey r.execution.triggerData = false)
      (loaded : Graph.load workflow r.world.storage = .ok g s) (started : g.startEdges ≠ [])
      (walk : Walks engine g [] Uuid.nil none g.startEdges (r.withStorage s) ending) :
      Traverses engine workflow r ending

/-! ### The engine does what the relations say -/

theorem checkpoint_apply (node : NodeId) (result : Json) (r : Run) :
    Run.checkpoint node result r =
      Run.access (Storage.updateExecution (r.execution.recordAction node result))
        (r.recording node result) := rfl

theorem access_of_ok {α : Type} {a : Access α} {r : Run} {v : α} {s : Storage}
    (h : a r.world.storage = .ok v s) : Run.access a r = .ok v (r.withStorage s) := by
  rw [Run.access, h]

theorem access_of_error {α : Type} {a : Access α} {r : Run} {e : StoreError} {s : Storage}
    (h : a r.world.storage = .error e s) :
    Run.access a r = .error (.store e) (r.withStorage s) := by
  rw [Run.access, h]

theorem acts_act (engine : Engine) (n : Node) (r : Run) : Acts engine n r (engine.act n r) := by
  unfold act
  cases kind : n.nodeType with
  | trigger => exact .trigger kind
  | condition => exact .condition kind rfl
  | action =>
    dsimp only
    rw [bind_apply]
    unfold runAction
    -- one case for each way in which `runAction` can end
    cases typed : n.actionType with
    | none => exact .untyped kind typed
    | some t =>
      dsimp only
      cases known : engine.catalogue.action? t with
      | none => exact .unknown kind typed known
      | some a =>
        dsimp only
        by_cases valid : a.validate n.config = []
        · rw [if_neg (not_not_intro valid)]
          rcases ran : a.run n.config r.execution.context r.world.storage with ⟨verdict, s⟩
          have performed : Run.perform a n.config r = .ok verdict (r.withStorage s) := by
            rw [Run.perform, ran]
          rw [bind_of_ok (get_apply r), bind_of_ok performed]
          cases verdict with
          | failed e => exact .failed kind typed known valid ran
          | crashed message => exact .crashed kind typed known valid ran
          | done result =>
            dsimp only
            rw [bind_of_ok (get_apply _), bind_apply, checkpoint_apply]
            cases kept : Storage.updateExecution (r.execution.recordAction n.id result) s with
            | ok u s' =>
              rw [access_of_ok kept]
              exact .completed kind typed known valid ran kept
            | error e s' =>
              rw [access_of_error kept]
              exact .unkept kind typed known valid ran kept
        · rw [if_pos valid]
          exact .invalid kind typed known valid

theorem acts_of_act {engine : Engine} {n : Node} {r : Run}
    {ending : EStateM.Result ExecutionError Run (Option ConditionType)}
    (h : engine.act n r = ending) : Acts engine n r ending :=
  h ▸ acts_act engine n r

theorem visit_apply (engine : Engine) (g : Graph) (path : List NodeId) (id : NodeId) (r : Run) :
    engine.visit g path id r = match engine.entry g path id with
      | .error e => .error e r
      | .ok n => (engine.act n >>= fun branch =>
          engine.follow g (id :: path) id branch (g.outgoing id))
          (r.after (.nodeEntered id (Vocabulary.text n.nodeType) path.length)) := by
  rw [visit]
  split <;> next h => rw [h]; rfl

@[simp] theorem follow_nil (engine : Engine) (g : Graph) (path : List NodeId) (source : NodeId)
    (branch : Option ConditionType) (r : Run) :
    engine.follow g path source branch [] r = .ok () r := by
  rw [follow, pure_apply]

theorem follow_cons (engine : Engine) (g : Graph) (path : List NodeId) (source : NodeId)
    (branch : Option ConditionType) (c : Connection) (cs : List Connection) (r : Run) :
    engine.follow g path source branch (c :: cs) r =
      if takes branch c then
        (engine.visit g path c.target >>= fun _ => engine.follow g path source branch cs) r
      else engine.follow g path source branch cs (r.after (.edgeSkipped source c.target)) := by
  rw [follow]
  split <;> rfl

/-- The engine follows connections as `Walks` says.  The recursion is that of the engine: a step
down leaves fewer live nodes outside the path, and a step aside leaves fewer connections. -/
theorem walks_follow (engine : Engine) (g : Graph) (path : List NodeId) (source : NodeId)
    (branch : Option ConditionType) (edges : List Connection) (r : Run) :
    Walks engine g path source branch edges r (engine.follow g path source branch edges r) := by
  -- the recursion is that of `follow`: below the node first, then along the other connections
  match edges with
  | [] =>
    rw [follow_nil]
    exact .done
  | c :: cs =>
    rw [follow_cons]
    cases taken : takes branch c with
    | false => exact .skip taken (walks_follow engine g path source branch cs _)
    | true =>
      rw [if_pos rfl, bind_apply, visit_apply]
      cases admitted : engine.entry g path c.target with
      | error e => exact .refuse taken admitted
      | ok n =>
        dsimp only
        rw [bind_apply]
        cases acted : engine.act n
            (r.after (.nodeEntered c.target (Vocabulary.text n.nodeType) path.length)) with
        | error e r' => exact .fail taken admitted acted
        | ok below r' =>
          dsimp only
          have down := walks_follow engine g (c.target :: path) c.target below
            (g.outgoing c.target) r'
          cases hdown : engine.follow g (c.target :: path) c.target below
              (g.outgoing c.target) r' with
          | error e r'' => exact .stop taken admitted acted (hdown ▸ down)
          | ok u r'' =>
            exact .pass taken admitted acted (hdown ▸ down)
              (walks_follow engine g path source branch cs r'')
termination_by (g.remaining path, edges.length)
decreasing_by
  · exact Prod.Lex.right _ (by simp)
  · obtain ⟨hnew, -, hnode⟩ := entry_eq_ok_iff.mp admitted
    exact Prod.Lex.left _ _ (Graph.remaining_cons_lt (Graph.mem_ids_of_node? hnode) hnew)
  · exact Prod.Lex.right _ (by simp)

/-- Visiting the targets from the trigger is following them with no branch: `takes none` skips
nothing. -/
theorem forM_visit_eq_follow (engine : Engine) (g : Graph) (source : NodeId)
    (edges : List Connection) :
    (edges.forM fun c => engine.visit g [] c.target) = engine.follow g [] source none edges := by
  induction edges with
  | nil => rw [follow]; rfl
  | cons c cs ih =>
    rw [follow]
    show (engine.visit g [] c.target >>= fun _ => cs.forM fun c => engine.visit g [] c.target) = _
    rw [ih]
    rfl

theorem traverses_traverse (engine : Engine) (workflow : WorkflowId) (r : Run) :
    Traverses engine workflow r (engine.traverse workflow r) := by
  unfold traverse
  rw [bind_of_ok (get_apply r)]
  cases free : Fields.has actionsKey r.execution.triggerData with
  | true => exact .reserved free
  | false =>
    simp only [Bool.false_eq_true, ↓reduceIte]
    cases loaded : Graph.load workflow r.world.storage with
    | error e s =>
      rw [bind_of_error (access_of_error loaded)]
      exact .unread free loaded
    | ok g s =>
      rw [bind_of_ok (access_of_ok loaded)]
      by_cases idle : g.startEdges = []
      · rw [if_pos (by rw [idle]; rfl)]
        exact .unstarted free loaded idle
      · rw [if_neg (by simpa using idle), forM_visit_eq_follow engine g Uuid.nil]
        exact .walked free loaded idle (walks_follow engine g [] Uuid.nil none g.startEdges _)

/-! ### The relations say no more than the engine does -/

/-- A derivation of `Walks` determines the ending: it is that of `Engine.follow`. -/
theorem Walks.follow_eq {engine : Engine} {g : Graph} {path : List NodeId} {source : NodeId}
    {branch : Option ConditionType} {edges : List Connection} {r : Run} {ending : Ending}
    (h : Walks engine g path source branch edges r ending) :
    engine.follow g path source branch edges r = ending := by
  induction h with
  | done => rw [follow_nil]
  | skip untaken rest ih => rw [follow_cons, untaken, if_neg Bool.false_ne_true, ih]
  | refuse taken refusal => rw [follow_cons, if_pos taken, bind_apply, visit_apply, refusal]
  | fail taken admitted failed =>
    rw [follow_cons, if_pos taken, bind_apply, visit_apply, admitted]
    dsimp only
    rw [bind_of_error failed]
  | stop taken admitted acted down ih =>
    rw [follow_cons, if_pos taken, bind_apply, visit_apply, admitted]
    dsimp only
    rw [bind_of_ok acted, ih]
  | pass taken admitted acted down rest ihdown ihrest =>
    rw [follow_cons, if_pos taken, bind_apply, visit_apply, admitted]
    dsimp only
    rw [bind_of_ok acted, ihdown]
    exact ihrest

/-- A derivation of `Traverses` determines the ending: it is that of `Engine.traverse`. -/
theorem Traverses.traverse_eq {engine : Engine} {workflow : WorkflowId} {r : Run} {ending : Ending}
    (h : Traverses engine workflow r ending) : engine.traverse workflow r = ending := by
  unfold traverse
  rw [bind_of_ok (get_apply r)]
  cases h with
  | reserved reserved =>
    rw [if_pos reserved]
    rfl
  | unread free refused =>
    simp only [free, Bool.false_eq_true, ↓reduceIte]
    exact bind_of_error (access_of_error refused) _
  | unstarted free loaded idle =>
    simp only [free, Bool.false_eq_true, ↓reduceIte]
    rw [bind_of_ok (access_of_ok loaded), if_pos (by rw [idle]; rfl)]
    rfl
  | walked free loaded started walk =>
    simp only [free, Bool.false_eq_true, ↓reduceIte]
    rw [bind_of_ok (access_of_ok loaded), if_neg (by simpa using started),
      forM_visit_eq_follow engine _ Uuid.nil]
    exact walk.follow_eq

/-! ### Walking a graph -/

/-- What is left of `Engine.traverse` once the graph has been read. -/
def walk (engine : Engine) (g : Graph) : Step Unit := do
  if g.startEdges.isEmpty then throw .noStartNode
  g.startEdges.forM fun c => engine.visit g [] c.target

/-- A traversal is the check of the payload, `Graph.load`, and then `Engine.walk` on what was read.
-/
theorem traverse_eq (engine : Engine) (workflow : WorkflowId) :
    engine.traverse workflow = (do
      if Fields.has actionsKey (← get).execution.triggerData then
        throw (.reservedContextKey actionsKey)
      engine.walk (← Run.access (Graph.load workflow))) := rfl

theorem walk_eq {engine : Engine} {g : Graph} (r : Run) :
    engine.walk g r = if g.startEdges = [] then .error .noStartNode r
      else engine.follow g [] Uuid.nil none g.startEdges r := by
  unfold walk
  by_cases hidle : g.startEdges = []
  · rw [if_pos hidle, if_pos (by rw [hidle]; rfl)]
    rfl
  · rw [if_neg hidle, if_neg (by simpa using hidle), ← forM_visit_eq_follow]

/-! ### From the start to the outcome -/

/-- A run begins with the row that `insertExecution` made of `Execution.start`, and with the report
of its start. -/
theorem begin_eq_ok {workflow : Workflow} {triggerType : String} {payload : Fields} {w w' : World}
    {r : Run} (h : Run.begin workflow triggerType payload w = .ok r w') :
    ∃ s, Storage.insertExecution (Execution.start Uuid.nil workflow.id triggerType payload w.now)
          w.storage = .ok r.execution s ∧
      r.world = { w with storage := s }.report r.execution.id
        (.executionStarted workflow.id triggerType) ∧
      w' = r.world := by
  obtain ⟨_, w₁, h₁, h₂⟩ := bind_eq_ok_iff.mp h
  obtain ⟨rfl, rfl⟩ : w = _ ∧ w = w₁ := by simpa using h₁
  obtain ⟨e, w₂, h₃, h₄⟩ := bind_eq_ok_iff.mp h₂
  unfold World.access at h₃
  split at h₃
  · next hs =>
    simp only [EStateM.Result.ok.injEq] at h₃
    obtain ⟨rfl, rfl⟩ := h₃
    obtain ⟨rfl, rfl⟩ : _ = r ∧ _ = w' := by simpa [bind_apply] using h₄
    exact ⟨_, hs, rfl, rfl⟩
  · simp at h₃

theorem begin_of_inserted {workflow : Workflow} {triggerType : String} {payload : Fields}
    {w : World} {e : Execution} {s : Storage}
    (h : Storage.insertExecution (Execution.start Uuid.nil workflow.id triggerType payload w.now)
      w.storage = .ok e s) :
    let w' := { w with storage := s }.report e.id (.executionStarted workflow.id triggerType)
    Run.begin workflow triggerType payload w = .ok ⟨w', e⟩ w' := by
  have haccess : World.access (Storage.insertExecution
      (Execution.start Uuid.nil workflow.id triggerType payload w.now)) w
        = .ok e { w with storage := s } := by
    rw [World.access, h]
  rw [Run.begin, bind_of_ok (get_apply w), bind_of_ok haccess]
  rfl

theorem begin_of_refused {workflow : Workflow} {triggerType : String} {payload : Fields}
    {w : World} {e : StoreError} {s : Storage}
    (h : Storage.insertExecution (Execution.start Uuid.nil workflow.id triggerType payload w.now)
      w.storage = .error e s) :
    Run.begin workflow triggerType payload w = .error e { w with storage := s } := by
  have haccess : World.access (Storage.insertExecution
      (Execution.start Uuid.nil workflow.id triggerType payload w.now)) w
        = .error e { w with storage := s } := by
    rw [World.access, h]
  rw [Run.begin, bind_of_ok (get_apply w), bind_of_error haccess]

/-- Where `Run.begin` fails, the journal and the tables are as they were. -/
theorem begin_eq_error {workflow : Workflow} {triggerType : String} {payload : Fields}
    {w w' : World} {e : StoreError}
    (h : Run.begin workflow triggerType payload w = .error e w') :
    w'.journal = w.journal ∧ w'.storage.tables = w.storage.tables := by
  rcases bind_eq_error_iff.mp h with h₁ | ⟨_, w₁, h₁, h₂⟩
  · simp at h₁
  obtain ⟨rfl, rfl⟩ : w = _ ∧ w = w₁ := by simpa using h₁
  rcases bind_eq_error_iff.mp h₂ with h₃ | ⟨_, w₂, h₃, h₄⟩
  · unfold World.access at h₃
    split at h₃
    · simp at h₃
    · next hs =>
      simp only [EStateM.Result.error.injEq] at h₃
      obtain ⟨rfl, rfl⟩ := h₃
      exact ⟨rfl, Storage.insertExecution_eq_error hs⟩
  · simp [bind_apply] at h₄

theorem execute_apply (engine : Engine) (workflow : Workflow) (triggerType : String)
    (payload : Fields) (w : World) :
    engine.execute workflow triggerType payload w =
      match Run.begin workflow triggerType payload w with
      | .ok r _ => .ok r.execution.id (conclude w.now (engine.traverse workflow.id r))
      | .error e w' => .error e w' := by
  unfold execute
  rw [bind_of_ok (get_apply w), bind_apply]
  cases Run.begin workflow triggerType payload w <;> rfl

/-- The error with which `Engine.traverse` ends; `none` for a run that completes or has not begun.
-/
def failure? (engine : Engine) (workflow : Workflow) (triggerType : String) (payload : Fields)
    (w : World) : Option ExecutionError :=
  match Run.begin workflow triggerType payload w with
  | .error _ _ => none
  | .ok r _ =>
    match engine.traverse workflow.id r with
    | .error e _ => some e
    | .ok _ _ => none

theorem failure?_eq_some_iff {engine : Engine} {workflow : Workflow} {triggerType : String}
    {payload : Fields} {w w' : World} {r : Run} {e : ExecutionError}
    (h : Run.begin workflow triggerType payload w = .ok r w') :
    engine.failure? workflow triggerType payload w = some e ↔
      ∃ r', engine.traverse workflow.id r = .error e r' := by
  unfold failure?
  rw [h]
  dsimp only
  cases engine.traverse workflow.id r <;> simp

end Engine

end TriggerFlow
