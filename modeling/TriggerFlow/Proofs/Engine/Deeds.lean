import TriggerFlow.Proofs.Engine.Journal
import TriggerFlow.Proofs.Graph.DepthFirst
/-!
# The deeds of a run

What a run does to the world is a list of deeds: it adds its row, calls actions, writes its row and
reports what happens (`Engine.deeds`).  They are read off the engine as it goes, each with what it
found: a call with the context that it passed on, a write with the row and whether the store took
it, a report with the row that the store held at that moment.

Every run comes about by a few kinds of `Steps`, so that facts about all deeds of a run are proved
by one induction over these (`steps_follow`, `steps_traverse`).
-/

namespace TriggerFlow

/-- The happenings in the course of a run: neither its start nor its outcome. -/
def Happening.isInner : Happening → Bool
  | executionStarted .. | executionCompleted .. | executionFailed .. => false
  | _ => true

theorem Happening.isInner_of_isMove {h : Happening} (hmove : h.isMove = true) :
    h.isInner = true := by
  cases h with
  | nodeEntered => rfl
  | conditionEvaluated => rfl
  | edgeSkipped => rfl
  | actionCompleted => rfl
  | _ => simp [isMove] at hmove

/-- What a run does to the world: its row is `inserted`; the action of a node is `called` on a
context and answers; the row is `wrote`, accepted by the store or not; and a happening is `reported`
while the store holds the row `stored`. -/
inductive Deed where
  | inserted (row : Execution)
  | called (node : NodeId) (context : Context) (verdict : Verdict)
  | wrote (row : Execution) (accepted : Bool)
  | reported (happening : Happening) (stored : Option Execution)

namespace Deed

/-- The node and the result of a call that has answered `.done`. -/
def result? : Deed → Option (NodeId × Json)
  | called node _ (.done v) => some (node, v)
  | _ => none

def happening? : Deed → Option Happening
  | reported h _ => some h
  | _ => none

def inserted? : Deed → Option Execution
  | inserted row => some row
  | _ => none

/-- The row that the store holds after `inserted` or an accepted `wrote`. -/
def kept? : Deed → Option Execution
  | inserted row => some row
  | wrote row true => some row
  | _ => none

end Deed

def resultsOf (ds : List Deed) : List (NodeId × Json) := ds.filterMap Deed.result?

def happeningsOf (ds : List Deed) : List Happening := ds.filterMap Deed.happening?

/-- The row as the store took it last: the last of the `kept?` rows. -/
def keptLast? (ds : List Deed) : Option Execution := (ds.filterMap Deed.kept?).getLast?

/-- The error with which a call ends the run, `none` if it gives a result. -/
def Verdict.blame? (node : NodeId) : Verdict → Option ExecutionError
  | done _ => none
  | failed e => some (.actionFailed node e)
  | crashed message => some (.crashed message)

/-- Whether `updateExecution` takes a row. -/
def Storage.accepts (s : Storage) (row : Execution) : Bool :=
  match Storage.updateExecution row s with
  | .ok _ _ => true
  | .error _ _ => false

theorem Storage.accepts_eq_true_iff {s : Storage} {row : Execution} :
    s.accepts row = true ↔ ∃ s', Storage.updateExecution row s = .ok () s' := by
  unfold accepts
  cases Storage.updateExecution row s <;> simp

theorem Storage.accepts_eq_false_iff {s : Storage} {row : Execution} :
    s.accepts row = false ↔ ∃ e s', Storage.updateExecution row s = .error e s' := by
  unfold accepts
  cases Storage.updateExecution row s <;> simp

/-- The deed of reporting `h`, with the row that the store holds. -/
def Run.reporting (r : Run) (h : Happening) : Deed :=
  .reported h (r.world.storage.tables.getExecution r.execution.id)

namespace Engine

/-! ### Reading the deeds off the engine -/

/-- The action that a node calls: its type is known, and `validate` has no objections to its
settings. -/
def action? (engine : Engine) (n : Node) : Option (String × Action) :=
  match n.nodeType, n.actionType with
  | .action, some t =>
    match engine.catalogue.action? t with
    | some a => if a.validate n.config = [] then some (t, a) else none
    | none => none
  | _, _ => none

/-- The deeds of a call: the call, and if it gives a result, the write of the row and the report
`actionCompleted` once that is taken. -/
def deedsOfCall (n : Node) (t : String) (a : Action) (r : Run) : List Deed :=
  match a.run n.config r.execution.context r.world.storage with
  | (.done v, s) =>
    let row := r.execution.recordAction n.id v
    .called n.id r.execution.context (.done v) ::
      match Storage.updateExecution row s with
      | .ok _ s' =>
        let ms := r.world.now.millisSince s.clock
        [.wrote row true, .reported (.actionCompleted n.id t ms) (s'.tables.getExecution row.id)]
      | .error _ _ => [.wrote row false]
  | (verdict, _) => [.called n.id r.execution.context verdict]

/-- The deeds of `Engine.act`: a report for a condition, and a call for an action node that has an
`action?`. -/
def deedsAt (engine : Engine) (n : Node) (r : Run) : List Deed :=
  match n.nodeType with
  | .trigger => []
  | .condition =>
    [r.reporting (.conditionEvaluated n.id (Condition.evaluate n.config r.execution.context))]
  | .action =>
    match engine.action? n with
    | some (t, a) => deedsOfCall n t a r
    | none => []

/-- The deeds of `Engine.follow`, by the same recursion. -/
def deedsFollowing (engine : Engine) (g : Graph) (path : List NodeId) (source : NodeId)
    (branch : Option ConditionType) : List Connection → Run → List Deed
  | [], _ => []
  | c :: cs, r =>
    if takes branch c then
      match _h : engine.entry g path c.target with
      | .error _ => []
      | .ok n =>
        let entered := .nodeEntered c.target (Vocabulary.text n.nodeType) path.length
        r.reporting entered :: (engine.deedsAt n (r.after entered) ++
          match engine.act n (r.after entered) with
          | .error _ _ => []
          | .ok below r' =>
            engine.deedsFollowing g (c.target :: path) c.target below (g.outgoing c.target) r' ++
              match engine.follow g (c.target :: path) c.target below (g.outgoing c.target) r' with
              | .error _ _ => []
              | .ok _ r'' => engine.deedsFollowing g path source branch cs r'')
    else
      r.reporting (.edgeSkipped source c.target) ::
        engine.deedsFollowing g path source branch cs (r.after (.edgeSkipped source c.target))
termination_by edges => (g.remaining path, edges.length)
decreasing_by
  · obtain ⟨hnew, -, hnode⟩ := entry_eq_ok_iff.mp _h
    exact Prod.Lex.left _ _ (Graph.remaining_cons_lt (Graph.mem_ids_of_node? hnode) hnew)
  · exact Prod.Lex.right _ (by simp)
  · exact Prod.Lex.right _ (by simp)

/-- The deeds of `Engine.traverse`. -/
def deedsTraversing (engine : Engine) (workflow : WorkflowId) (r : Run) : List Deed :=
  if Fields.has actionsKey r.execution.triggerData then []
  else
    match Graph.load workflow r.world.storage with
    | .error _ _ => []
    | .ok g s => engine.deedsFollowing g [] Uuid.nil none g.startEdges (r.withStorage s)

/-- All deeds of a run, from the insertion of its row to its `outcome` and the `closing` write; none
if it does not begin. -/
def deeds (engine : Engine) (workflow : Workflow) (triggerType : String) (payload : Fields)
    (w : World) : List Deed :=
  match Run.begin workflow triggerType payload w with
  | .error _ _ => []
  | .ok r _ =>
    let ending := engine.traverse workflow.id r
    let last := leftBy ending
    .inserted r.execution :: r.reporting (.executionStarted workflow.id triggerType) ::
      (engine.deedsTraversing workflow.id r ++
        [last.reporting (outcome w.now ending),
         .wrote (closing ending) (last.world.storage.accepts (closing ending))])

/-! ### The steps of a run -/

/-- How a run goes on with its deeds until it ends, one constructor for each kind of step: it is
`done`, or is ended by what it finds (`halt`); it reads the store (`look`), reports a move
(`report`), or calls an action, which gives no result (`fail`), or one that the store does not take
(`refuse`) or takes (`complete`). -/
inductive Steps (engine : Engine) : Run → List Deed → Ending → Prop
  | done {r} : Steps engine r [] (.ok () r)
  | halt {r e} : Steps engine r [] (.error e r)
  | look {r s ds ending} (same : s.tables = r.world.storage.tables)
      (rest : Steps engine (r.withStorage s) ds ending) : Steps engine r ds ending
  | report {r h ds ending} (move : h.isMove = true) (rest : Steps engine (r.after h) ds ending) :
      Steps engine r (r.reporting h :: ds) ending
  | fail {r node t a config verdict s e} (known : engine.catalogue.action? t = some a)
      (ran : a.run config r.execution.context r.world.storage = (verdict, s))
      (blame : verdict.blame? node = some e) :
      Steps engine r [.called node r.execution.context verdict] (.error e (r.withStorage s))
  | refuse {r node t a config v s e s'} (known : engine.catalogue.action? t = some a)
      (ran : a.run config r.execution.context r.world.storage = (.done v, s))
      (refused : Storage.updateExecution (r.execution.recordAction node v) s = .error e s') :
      Steps engine r
        [.called node r.execution.context (.done v), .wrote (r.execution.recordAction node v) false]
        (.error (.store e) ((r.recording node v).withStorage s'))
  | complete {r node t a config v s s' ms ds ending}
      (known : engine.catalogue.action? t = some a)
      (ran : a.run config r.execution.context r.world.storage = (.done v, s))
      (kept : Storage.updateExecution (r.execution.recordAction node v) s = .ok () s')
      (rest : Steps engine
        (((r.recording node v).withStorage s').after (.actionCompleted node t ms)) ds ending) :
      Steps engine r
        (.called node r.execution.context (.done v) ::
          .wrote (r.execution.recordAction node v) true ::
          ((r.recording node v).withStorage s').reporting (.actionCompleted node t ms) :: ds)
        ending

variable {engine : Engine} {r r' : Run} {ds ds' : List Deed} {ending : Ending}

/-- Steps that end well can be gone on with. -/
theorem Steps.append (h : Steps engine r ds (.ok () r')) (h' : Steps engine r' ds' ending) :
    Steps engine r (ds ++ ds') ending := by
  generalize hdone : EStateM.Result.ok () r' = first at h
  -- a step that ends the run otherwise than well is not gone on from
  induction h with
  | done =>
    obtain ⟨-, rfl⟩ := EStateM.Result.ok.inj hdone
    exact h'
  | halt => simp at hdone
  | look same rest ih => exact .look same (ih hdone)
  | report move rest ih => exact .report move (ih hdone)
  | fail => simp at hdone
  | refuse => simp at hdone
  | complete known ran kept rest ih => exact .complete known ran kept (ih hdone)

/-! ### The engine takes these steps -/

def ended {α : Type} : EStateM.Result ExecutionError Run α → Ending
  | .ok _ r => .ok () r
  | .error e r => .error e r

theorem known_of_action? {n : Node} {t : String} {a : Action} (h : engine.action? n = some (t, a)) :
    engine.catalogue.action? t = some a := by
  unfold action? at h
  split at h
  · next t' kind typed =>
    split at h
    · next a' known =>
      split at h
      · obtain ⟨rfl, rfl⟩ := Prod.mk.inj (Option.some.inj h)
        exact known
      · cases h
    · cases h
  · cases h

/-- Why `Engine.act` refuses an action node that has no `action?`. -/
def refusal (engine : Engine) (n : Node) : ExecutionError :=
  match n.actionType with
  | none => .missingActionType n.id
  | some t =>
    match engine.catalogue.action? t with
    | none => .unknownActionType t
    | some a => .invalidActionConfig (a.validate n.config)

/-- What becomes of a run that calls the action of a node.  A result is recorded and the row
written; if the store takes it, `actionCompleted` is reported with the time that the call took. -/
def called (n : Node) (t : String) (a : Action) (r : Run) :
    EStateM.Result ExecutionError Run (Option ConditionType) :=
  match a.run n.config r.execution.context r.world.storage with
  | (.failed e, s) => .error (.actionFailed n.id e) (r.withStorage s)
  | (.crashed message, s) => .error (.crashed message) (r.withStorage s)
  | (.done v, s) =>
    match Storage.updateExecution (r.execution.recordAction n.id v) s with
    | .error e s' => .error (.store e) ((r.recording n.id v).withStorage s')
    | .ok _ s' =>
      .ok none (((r.recording n.id v).withStorage s').after
        (.actionCompleted n.id t (r.world.now.millisSince s.clock)))

theorem act_of_trigger (engine : Engine) {n : Node} (kind : n.nodeType = .trigger) (r : Run) :
    engine.act n r = .ok none r ∧ engine.deedsAt n r = [] := by
  unfold act deedsAt
  rw [kind]
  exact ⟨rfl, rfl⟩

theorem act_of_condition (engine : Engine) {n : Node} (kind : n.nodeType = .condition) (r : Run) :
    let result := Condition.evaluate n.config r.execution.context
    engine.act n r =
        .ok (some (ConditionType.ofBool result)) (r.after (.conditionEvaluated n.id result)) ∧
      engine.deedsAt n r = [r.reporting (.conditionEvaluated n.id result)] := by
  unfold act deedsAt
  rw [kind]
  exact ⟨rfl, rfl⟩

/-- An action node calls its `action?`, or ends the run with its `refusal`. -/
theorem act_of_action {n : Node} (kind : n.nodeType = .action) (r : Run) :
    engine.act n r = match engine.action? n with
      | some (t, a) => called n t a r
      | none => .error (engine.refusal n) r := by
  unfold act
  rw [kind]
  dsimp only
  rw [bind_apply]
  unfold runAction action? refusal
  rw [kind]
  -- the refusals of the engine are met in the order in which `action?` meets them
  cases typed : n.actionType with
  | none => rfl
  | some t =>
    dsimp only
    cases known : engine.catalogue.action? t with
    | none => rfl
    | some a =>
      dsimp only
      by_cases valid : a.validate n.config = []
      · rw [if_neg (not_not_intro valid), if_pos valid]
        dsimp only
        unfold called
        rcases ran : a.run n.config r.execution.context r.world.storage with ⟨verdict, s⟩
        have performed : Run.perform a n.config r = .ok verdict (r.withStorage s) := by
          rw [Run.perform, ran]
        rw [bind_of_ok (get_apply r), bind_of_ok performed]
        cases verdict with
        | failed e => rfl
        | crashed message => rfl
        | done v =>
          dsimp only
          rw [bind_of_ok (get_apply _), bind_apply, checkpoint_apply]
          cases kept : Storage.updateExecution (r.execution.recordAction n.id v) s with
          | ok u s' =>
            rw [access_of_ok kept]
            rfl
          | error e s' =>
            rw [access_of_error kept]
            rfl
      · rw [if_pos valid, if_neg valid]
        rfl

theorem deedsAt_of_action {n : Node} (kind : n.nodeType = .action) (r : Run) :
    engine.deedsAt n r = match engine.action? n with
      | some (t, a) => deedsOfCall n t a r
      | none => [] := by
  unfold deedsAt
  rw [kind]

/-- A call takes `Steps` with the deeds of `deedsOfCall`. -/
theorem steps_called {n : Node} {t : String} {a : Action}
    (known : engine.catalogue.action? t = some a) (r : Run) :
    Steps engine r (deedsOfCall n t a r) (ended (called n t a r)) := by
  unfold deedsOfCall called
  rcases ran : a.run n.config r.execution.context r.world.storage with ⟨verdict, s⟩
  cases verdict with
  | failed e => exact .fail known ran rfl
  | crashed message => exact .fail known ran rfl
  | done v =>
    dsimp only
    cases kept : Storage.updateExecution (r.execution.recordAction n.id v) s with
    | error e s' => exact .refuse known ran kept
    | ok u s' => exact .complete known ran kept .done

theorem steps_act (engine : Engine) (n : Node) (r : Run) :
    Steps engine r (engine.deedsAt n r) (ended (engine.act n r)) := by
  cases kind : n.nodeType with
  | trigger =>
    obtain ⟨hact, hdeeds⟩ := act_of_trigger engine kind r
    rw [hact, hdeeds]
    exact .done
  | condition =>
    obtain ⟨hact, hdeeds⟩ := act_of_condition engine kind r
    rw [hact, hdeeds]
    exact .report rfl .done
  | action =>
    rw [act_of_action kind, deedsAt_of_action kind]
    cases hcall : engine.action? n with
    | none => exact .halt
    | some entry => exact steps_called (known_of_action? hcall) r

@[simp] theorem deedsFollowing_nil (engine : Engine) (g : Graph) (path : List NodeId)
    (source : NodeId) (branch : Option ConditionType) (r : Run) :
    engine.deedsFollowing g path source branch [] r = [] := by
  rw [deedsFollowing]

/-! ### The first of some connections

What a run makes of it, and with which deeds, in each of the ways in which things can go. -/

section First

variable {g : Graph} {path : List NodeId} {branch : Option ConditionType} {c : Connection}
  {n : Node} {below : Option ConditionType} {e : ExecutionError} {r'' : Run} (source : NodeId)
  (cs : List Connection)

theorem follow_of_untaken (engine : Engine) (g : Graph) (path : List NodeId) (source : NodeId)
    (cs : List Connection) (r : Run) (taken : takes branch c = false) :
    engine.follow g path source branch (c :: cs) r =
        engine.follow g path source branch cs (r.after (.edgeSkipped source c.target)) ∧
      engine.deedsFollowing g path source branch (c :: cs) r =
        r.reporting (.edgeSkipped source c.target) ::
          engine.deedsFollowing g path source branch cs
            (r.after (.edgeSkipped source c.target)) := by
  constructor
  · rw [follow_cons, taken, if_neg Bool.false_ne_true]
  · rw [deedsFollowing, taken, if_neg Bool.false_ne_true]

theorem follow_of_refused (r : Run) (taken : takes branch c = true)
    (refused : engine.entry g path c.target = .error e) :
    engine.follow g path source branch (c :: cs) r = .error e r ∧
      engine.deedsFollowing g path source branch (c :: cs) r = [] := by
  constructor
  · rw [follow_cons, taken, if_pos rfl, bind_apply, visit_apply, refused]
  · rw [deedsFollowing, taken, if_pos rfl]
    split
    · rfl
    · next admitted =>
      rw [refused] at admitted
      cases admitted

/-- Following a connection that is taken to a node that is admitted is `act`, then `follow` below
the node, and then `follow` for the rest. -/
theorem follow_of_admitted (r : Run) (taken : takes branch c = true)
    (admitted : engine.entry g path c.target = .ok n) :
    let entered : Happening := .nodeEntered c.target (Vocabulary.text n.nodeType) path.length
    engine.follow g path source branch (c :: cs) r =
        ((engine.act n >>= fun below =>
          engine.follow g (c.target :: path) c.target below (g.outgoing c.target)) >>= fun _ =>
            engine.follow g path source branch cs) (r.after entered) ∧
      engine.deedsFollowing g path source branch (c :: cs) r =
        r.reporting entered :: (engine.deedsAt n (r.after entered) ++
          match engine.act n (r.after entered) with
          | .error _ _ => []
          | .ok below r' =>
            engine.deedsFollowing g (c.target :: path) c.target below (g.outgoing c.target) r' ++
              match engine.follow g (c.target :: path) c.target below (g.outgoing c.target) r' with
              | .error _ _ => []
              | .ok _ r'' => engine.deedsFollowing g path source branch cs r'') := by
  constructor
  · rw [follow_cons, taken, if_pos rfl, bind_apply, visit_apply, admitted, bind_apply]
  · rw [deedsFollowing, taken, if_pos rfl]
    split
    · next e refused =>
      rw [admitted] at refused
      cases refused
    · next n' admitted' =>
      obtain rfl := Except.ok.inj (admitted.symm.trans admitted')
      rfl

theorem follow_of_failed (taken : takes branch c = true)
    (admitted : engine.entry g path c.target = .ok n)
    (failed : engine.act n
      (r.after (.nodeEntered c.target (Vocabulary.text n.nodeType) path.length)) = .error e r') :
    engine.follow g path source branch (c :: cs) r = .error e r' ∧
      engine.deedsFollowing g path source branch (c :: cs) r =
        r.reporting (.nodeEntered c.target (Vocabulary.text n.nodeType) path.length) ::
          engine.deedsAt n
            (r.after (.nodeEntered c.target (Vocabulary.text n.nodeType) path.length)) := by
  obtain ⟨hfollow, hdeeds⟩ := follow_of_admitted source cs r taken admitted
  constructor
  · rw [hfollow, bind_of_error (bind_of_error failed _)]
  · rw [hdeeds, failed, List.append_nil]

theorem follow_of_stopped (taken : takes branch c = true)
    (admitted : engine.entry g path c.target = .ok n)
    (acted : engine.act n
      (r.after (.nodeEntered c.target (Vocabulary.text n.nodeType) path.length)) = .ok below r')
    (stopped : engine.follow g (c.target :: path) c.target below (g.outgoing c.target) r'
      = .error e r'') :
    engine.follow g path source branch (c :: cs) r = .error e r'' ∧
      engine.deedsFollowing g path source branch (c :: cs) r =
        r.reporting (.nodeEntered c.target (Vocabulary.text n.nodeType) path.length) ::
          (engine.deedsAt n
            (r.after (.nodeEntered c.target (Vocabulary.text n.nodeType) path.length)) ++
          engine.deedsFollowing g (c.target :: path) c.target below (g.outgoing c.target) r') := by
  obtain ⟨hfollow, hdeeds⟩ := follow_of_admitted source cs r taken admitted
  constructor
  · rw [hfollow, bind_of_error ((bind_of_ok acted _).trans stopped)]
  · rw [hdeeds, acted]
    dsimp only
    rw [stopped, List.append_nil]

theorem follow_of_passed (taken : takes branch c = true)
    (admitted : engine.entry g path c.target = .ok n)
    (acted : engine.act n
      (r.after (.nodeEntered c.target (Vocabulary.text n.nodeType) path.length)) = .ok below r')
    (passed : engine.follow g (c.target :: path) c.target below (g.outgoing c.target) r'
      = .ok () r'') :
    engine.follow g path source branch (c :: cs) r =
        engine.follow g path source branch cs r'' ∧
      engine.deedsFollowing g path source branch (c :: cs) r =
        r.reporting (.nodeEntered c.target (Vocabulary.text n.nodeType) path.length) ::
          (engine.deedsAt n
            (r.after (.nodeEntered c.target (Vocabulary.text n.nodeType) path.length)) ++
          (engine.deedsFollowing g (c.target :: path) c.target below (g.outgoing c.target) r' ++
            engine.deedsFollowing g path source branch cs r'')) := by
  obtain ⟨hfollow, hdeeds⟩ := follow_of_admitted source cs r taken admitted
  constructor
  · rw [hfollow, bind_of_ok ((bind_of_ok acted _).trans passed)]
  · rw [hdeeds, acted]
    dsimp only
    rw [passed]

end First

/-- The deeds of a node that is entered, `deedsAt`, are among `deedsFollowing`. -/
theorem mem_deedsFollowing {engine : Engine} {g : Graph} {path : List NodeId} {source : NodeId}
    {branch : Option ConditionType} {c : Connection} {r : Run} {n : Node} {d : Deed}
    (cs : List Connection) (taken : takes branch c = true)
    (admitted : engine.entry g path c.target = .ok n)
    (h : d ∈ engine.deedsAt n
      (r.after (.nodeEntered c.target (Vocabulary.text n.nodeType) path.length))) :
    d ∈ engine.deedsFollowing g path source branch (c :: cs) r := by
  obtain ⟨-, hdeeds⟩ := follow_of_admitted source cs r taken admitted
  rw [hdeeds]
  exact List.mem_cons_of_mem _ (List.mem_append_left _ h)

/-- The deeds below a node that has acted well are among `deedsFollowing`. -/
theorem mem_deedsFollowing_below {engine : Engine} {g : Graph} {path : List NodeId}
    {source : NodeId} {branch below : Option ConditionType} {c : Connection} {r r' : Run} {n : Node}
    {d : Deed} (cs : List Connection) (taken : takes branch c = true)
    (admitted : engine.entry g path c.target = .ok n)
    (acted : engine.act n
      (r.after (.nodeEntered c.target (Vocabulary.text n.nodeType) path.length)) = .ok below r')
    (h : d ∈ engine.deedsFollowing g (c.target :: path) c.target below (g.outgoing c.target) r') :
    d ∈ engine.deedsFollowing g path source branch (c :: cs) r := by
  obtain ⟨-, hdeeds⟩ := follow_of_admitted source cs r taken admitted
  rw [hdeeds, acted]
  exact List.mem_cons_of_mem _ (List.mem_append_right _ (List.mem_append_left _ h))

/-- The deeds along `startEdges` are deeds of the run. -/
theorem mem_deeds_of_start {engine : Engine} {workflow : Workflow} {triggerType : String}
    {payload : Fields} {w w' : World} {r : Run} {g : Graph} {s : Storage} {d : Deed}
    (begun : Run.begin workflow triggerType payload w = .ok r w')
    (free : Fields.has actionsKey r.execution.triggerData = false)
    (loaded : Graph.load workflow.id r.world.storage = .ok g s)
    (h : d ∈ engine.deedsFollowing g [] Uuid.nil none g.startEdges (r.withStorage s)) :
    d ∈ engine.deeds workflow triggerType payload w := by
  unfold deeds deedsTraversing
  rw [begun]
  dsimp only
  rw [free, if_neg Bool.false_ne_true, loaded]
  exact List.mem_cons_of_mem _ (List.mem_cons_of_mem _ (List.mem_append_left _ h))

/-- Following connections takes `Steps` with the deeds of `deedsFollowing`.  The recursion is that
of the engine. -/
theorem steps_follow (engine : Engine) (g : Graph) (path : List NodeId) (source : NodeId)
    (branch : Option ConditionType) (edges : List Connection) (r : Run) :
    Steps engine r (engine.deedsFollowing g path source branch edges r)
      (engine.follow g path source branch edges r) := by
  match edges with
  | [] =>
    rw [follow_nil, deedsFollowing_nil]
    exact .done
  | c :: cs =>
    cases taken : takes branch c with
    | false =>
      obtain ⟨hfollow, hdeeds⟩ := follow_of_untaken engine g path source cs r taken
      rw [hfollow, hdeeds]
      exact .report rfl (steps_follow engine g path source branch cs _)
    | true =>
      cases admitted : engine.entry g path c.target with
      | error e =>
        obtain ⟨hfollow, hdeeds⟩ := follow_of_refused source cs r taken
          admitted
        rw [hfollow, hdeeds]
        exact .halt
      | ok n =>
        have here := steps_act engine n
          (r.after (.nodeEntered c.target (Vocabulary.text n.nodeType) path.length))
        cases acted : engine.act n
            (r.after (.nodeEntered c.target (Vocabulary.text n.nodeType) path.length)) with
        | error e r' =>
          obtain ⟨hfollow, hdeeds⟩ := follow_of_failed source cs taken admitted
            acted
          rw [acted] at here
          rw [hfollow, hdeeds]
          exact .report rfl here
        | ok below r' =>
          rw [acted] at here
          -- the node has been left well: first what lies below it, then what lies beside it
          have down := steps_follow engine g (c.target :: path) c.target below
            (g.outgoing c.target) r'
          cases passed : engine.follow g (c.target :: path) c.target below
              (g.outgoing c.target) r' with
          | error e r'' =>
            obtain ⟨hfollow, hdeeds⟩ := follow_of_stopped source cs taken
              admitted acted passed
            rw [passed] at down
            rw [hfollow, hdeeds]
            exact .report rfl (here.append down)
          | ok u r'' =>
            obtain ⟨hfollow, hdeeds⟩ := follow_of_passed source cs taken
              admitted acted passed
            have beside := steps_follow engine g path source branch cs r''
            rw [passed] at down
            rw [hfollow, hdeeds]
            exact .report rfl (here.append (down.append beside))
termination_by (g.remaining path, edges.length)
decreasing_by
  · exact Prod.Lex.right _ (by simp)
  · obtain ⟨hnew, -, hnode⟩ := entry_eq_ok_iff.mp admitted
    exact Prod.Lex.left _ _ (Graph.remaining_cons_lt (Graph.mem_ids_of_node? hnode) hnew)
  · exact Prod.Lex.right _ (by simp)

/-- A traversal takes `Steps` with the deeds of `deedsTraversing`. -/
theorem steps_traverse (engine : Engine) (workflow : WorkflowId) (r : Run) :
    Steps engine r (engine.deedsTraversing workflow r) (engine.traverse workflow r) := by
  unfold traverse deedsTraversing
  rw [bind_of_ok (get_apply r)]
  cases free : Fields.has actionsKey r.execution.triggerData with
  | true => exact .halt
  | false =>
    simp only [Bool.false_eq_true, ↓reduceIte]
    cases loaded : Graph.load workflow r.world.storage with
    | error e s =>
      rw [bind_of_error (access_of_error loaded)]
      exact .look ((Graph.looks_load workflow).reads.of_error loaded) .halt
    | ok g s =>
      rw [bind_of_ok (access_of_ok loaded)]
      refine .look ((Graph.looks_load workflow).reads.of_ok loaded) ?_
      dsimp only
      by_cases idle : g.startEdges = []
      · rw [if_pos (by rw [idle]; rfl), idle, deedsFollowing_nil]
        exact .halt
      · rw [if_neg (by simpa using idle), forM_visit_eq_follow engine g Uuid.nil]
        exact steps_follow engine g [] Uuid.nil none g.startEdges _

/-- If the trigger leads to one node and this leads nowhere, `traverse` is `act` at this node. -/
theorem traverse_of_leaf {workflow : WorkflowId} {g : Graph} {c : Connection} {n : Node}
    (calm : r.world.storage.outages = [])
    (free : Fields.has actionsKey r.execution.triggerData = false)
    (graph : Graph.ofTables r.world.storage.tables workflow = g) (start : g.startEdges = [c])
    (admitted : engine.entry g [] c.target = .ok n) (leaf : g.outgoing c.target = []) :
    engine.traverse workflow r = ended (engine.act n
      (r.after (.nodeEntered c.target (Vocabulary.text n.nodeType) 0))) := by
  have taken : takes none c = true := rfl
  have hstart : ¬ g.startEdges.isEmpty = true := by simp [start]
  have loaded : Graph.load workflow r.world.storage = .ok g r.world.storage :=
    graph ▸ Graph.load_of_calm calm workflow
  unfold traverse
  rw [bind_of_ok (get_apply r)]
  simp only [free, Bool.false_eq_true, ↓reduceIte]
  rw [bind_of_ok (access_of_ok loaded), if_neg hstart, forM_visit_eq_follow engine g Uuid.nil,
    start]
  cases acted : engine.act n (r.after (.nodeEntered c.target (Vocabulary.text n.nodeType) 0)) with
  | error e r' =>
    obtain ⟨hfollow, -⟩ := follow_of_failed Uuid.nil [] taken admitted acted
    exact hfollow
  | ok below r' =>
    have down : engine.follow g [c.target] c.target below (g.outgoing c.target) r' = .ok () r' := by
      rw [leaf, follow_nil]
    obtain ⟨hfollow, -⟩ := follow_of_passed Uuid.nil [] taken admitted acted down
    exact hfollow.trans (follow_nil engine g [] Uuid.nil none r')

/-- The form of `traverse_of_leaf` for `execute`. -/
theorem execute_of_leaf {workflow : Workflow} {triggerType : String} {payload : Fields} {w : World}
    {g : Graph} {c : Connection} {n : Node}
    (begun : Run.begin workflow triggerType payload w = .ok r r.world)
    (calm : r.world.storage.outages = [])
    (free : Fields.has actionsKey r.execution.triggerData = false)
    (graph : Graph.ofTables r.world.storage.tables workflow.id = g) (start : g.startEdges = [c])
    (admitted : engine.entry g [] c.target = .ok n) (leaf : g.outgoing c.target = []) :
    engine.execute workflow triggerType payload w =
      .ok r.execution.id (conclude w.now (ended (engine.act n
        (r.after (.nodeEntered c.target (Vocabulary.text n.nodeType) 0))))) := by
  rw [execute_apply, begun, ← traverse_of_leaf calm free graph start admitted leaf]

/-! ### What the deeds tell -/

/-- Steps report the happenings of their deeds in order, all of them `isInner`, and nothing else. -/
theorem Steps.reports (h : Steps engine r ds ending) :
    Run.Reports r (leftBy ending) (happeningsOf ds) ∧ ∀ x ∈ happeningsOf ds, x.isInner = true := by
  induction h with
  | done => exact ⟨.refl _, by simp [happeningsOf]⟩
  | halt => exact ⟨.refl _, by simp [happeningsOf]⟩
  | look same rest ih => exact ⟨(Run.reports_withStorage _ _).trans ih.1, ih.2⟩
  | report move rest ih =>
    exact ⟨(Run.reports_after _ _).trans ih.1,
      List.forall_mem_cons.mpr ⟨Happening.isInner_of_isMove move, ih.2⟩⟩
  | fail => exact ⟨Run.reports_withStorage _ _, by simp [happeningsOf, Deed.happening?]⟩
  | refuse =>
    exact ⟨(Run.reports_recording _ _ _).trans (Run.reports_withStorage _ _),
      by simp [happeningsOf, Deed.happening?]⟩
  | complete known ran kept rest ih =>
    refine ⟨?_, List.forall_mem_cons.mpr ⟨rfl, ih.2⟩⟩
    exact (((Run.reports_recording _ _ _).trans (Run.reports_withStorage _ _)).trans
      (Run.reports_after _ _)).trans ih.1

/-- Of its execution a run changes nothing but `context`. -/
theorem Steps.execution_eq (h : Steps engine r ds ending) :
    (leftBy ending).execution =
      { r.execution with context := (leftBy ending).execution.context } := by
  induction h with
  | look same rest ih => exact ih
  | report move rest ih => exact ih
  | complete known ran kept rest ih => exact ih
  | _ => rfl

/-- Steps have no deed `inserted`. -/
theorem Steps.inserted_nil (h : Steps engine r ds ending) : ds.filterMap Deed.inserted? = [] := by
  induction h with
  | look same rest ih => exact ih
  | report move rest ih => exact ih
  | complete known ran kept rest ih => exact ih
  | _ => rfl

/-- A call with a `blame?` ends the run with this error. -/
theorem Steps.blames (h : Steps engine r ds ending) {node : NodeId} {context : Context}
    {verdict : Verdict} {e : ExecutionError} (called : .called node context verdict ∈ ds)
    (blame : verdict.blame? node = some e) : ∃ r', ending = .error e r' := by
  -- a deed that blames its action is the last one, so that a later step cannot undo the error
  induction h with
  | done => simp at called
  | halt => simp at called
  | look same rest ih => exact ih called
  | report move rest ih =>
    rcases List.mem_cons.mp called with heq | hmem
    · simp [Run.reporting] at heq
    · exact ih hmem
  | fail known ran blame' =>
    simp only [List.mem_singleton, Deed.called.injEq] at called
    obtain ⟨rfl, rfl, rfl⟩ := called
    rw [blame] at blame'
    obtain rfl := Option.some.inj blame'
    exact ⟨_, rfl⟩
  | refuse known ran refused =>
    simp only [List.mem_cons, Deed.called.injEq, reduceCtorEq, List.not_mem_nil, or_false] at called
    obtain ⟨-, -, rfl⟩ := called
    simp [Verdict.blame?] at blame
  | complete known ran kept rest ih =>
    simp only [List.mem_cons, Deed.called.injEq, reduceCtorEq, Run.reporting, false_or] at called
    rcases called with ⟨-, -, rfl⟩ | hmem
    · simp [Verdict.blame?] at blame
    · exact ih hmem

/-- The events of a run are the `happeningsOf` its deeds. -/
theorem events_deeds (engine : Engine) (workflow : Workflow) (triggerType : String)
    (payload : Fields) (w : World) :
    ∃ news, (leftBy (engine.execute workflow triggerType payload w)).events = w.events ++ news ∧
      news.map Event.happening = happeningsOf (engine.deeds workflow triggerType payload w) := by
  unfold deeds
  cases hbegin : Run.begin workflow triggerType payload w with
  | error e w' =>
    refine ⟨[], ?_, rfl⟩
    rw [events_execute_of_refused hbegin, List.append_nil]
  | ok r w' =>
    obtain ⟨hreports, -⟩ := (steps_traverse engine workflow.id r).reports
    obtain ⟨news, hevents, hnews⟩ := events_execute hbegin hreports
    refine ⟨news, hevents, ?_⟩
    rw [hnews]
    simp [happeningsOf, List.filterMap_cons, Deed.happening?, Run.reporting]

end Engine

end TriggerFlow
