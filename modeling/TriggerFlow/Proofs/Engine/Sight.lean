import TriggerFlow.Proofs.Context.Sight
import TriggerFlow.Proofs.Engine.Contexts
/-!
# Later nodes see what earlier nodes have done

In a run every action is called on a context that shows the payload and the latest results so far,
and every condition is evaluated in such a context (`Deed.Sees`).  This is proved along the engine's
own recursion (`sees_following`): a node that is entered sees it because the run knows its results
(`Knows`), which the steps of the run keep up to date (`Steps.contexts`).  Main statement:
`results_are_seen`.
-/

namespace TriggerFlow

open Execution

/-- What a node of the graph does after the deeds `past` it does in a context that `Shows` the
payload and `resultsOf past`: its action is called on it, or its condition is evaluated in it. -/
def Deed.Sees (engine : Engine) (g : Graph) (payload : Fields) (past : List Deed) : Deed → Prop
  | called node context verdict =>
    Shows payload (resultsOf past) context ∧
      ∃ n t a s, g.node? node = some n ∧ engine.action? n = some (t, a) ∧
        (a.run n.config context s).1 = verdict
  | reported (.conditionEvaluated node outcome) _ =>
    Shows payload (resultsOf past) (contextOf payload (resultsOf past)) ∧
      ∃ n, g.node? node = some n ∧ n.nodeType = .condition ∧
        Condition.evaluate n.config (contextOf payload (resultsOf past)) = outcome
  | _ => True

namespace Engine

variable {engine : Engine} {g : Graph} {payload : Fields} {past : List Deed} {r : Run}

theorem Knows.reporting (knows : Knows payload past r) (h : Happening) :
    Knows payload (past ++ [r.reporting h]) (r.after h) := knows.more rfl rfl

/-- Once a node has acted the run knows its result. -/
theorem Knows.acted (free : Fields.has actionsKey payload = false) (knows : Knows payload past r)
    {n : Node} {below : Option ConditionType} {r' : Run} (acted : engine.act n r = .ok below r') :
    Knows payload (past ++ engine.deedsAt n r) r' := by
  have hends := ((steps_act engine n r).contexts free knows).2
  rw [acted] at hends
  exact hends

/-- Once connections have been followed the run knows all results below them. -/
theorem Knows.followed (free : Fields.has actionsKey payload = false)
    (knows : Knows payload past r) {path : List NodeId} {source : NodeId}
    {branch : Option ConditionType} {edges : List Connection} {r' : Run}
    (passed : engine.follow g path source branch edges r = .ok () r') :
    Knows payload (past ++ engine.deedsFollowing g path source branch edges r) r' := by
  have hends := ((steps_follow engine g path source branch edges r).contexts free knows).2
  rw [passed] at hends
  exact hends

/-- The relation `Deed.Sees` holds along what a node does when it acts. -/
theorem sees_deedsAt (free : Fields.has actionsKey payload = false) (knows : Knows payload past r)
    {id : NodeId} {n : Node} (node : g.node? id = some n) :
    Deed.Along (Deed.Sees engine g payload) past (engine.deedsAt n r) := by
  have hid : n.id = id := DepthFirst.id_of_node? node
  cases kind : n.nodeType with
  | trigger =>
    obtain ⟨-, hdeeds⟩ := act_of_trigger engine kind r
    rw [hdeeds]
    trivial
  | condition =>
    obtain ⟨-, hdeeds⟩ := act_of_condition engine kind r
    rw [hdeeds]
    exact ⟨⟨shows_contextOf free _, n, hid.symm ▸ node, kind, by rw [knows.context]⟩, trivial⟩
  | action =>
    rw [deedsAt_of_action kind]
    cases hcall : engine.action? n with
    | none => trivial
    | some entry =>
      obtain ⟨t, a⟩ := entry
      dsimp only
      unfold deedsOfCall
      rcases ran : a.run n.config r.execution.context r.world.storage with ⟨verdict, s⟩
      have hcalled : Deed.Sees engine g payload past
          (.called n.id r.execution.context verdict) :=
        ⟨knows.context ▸ shows_contextOf free _, n, t, a, r.world.storage, hid.symm ▸ node, hcall,
          by rw [ran]⟩
      cases verdict with
      | failed e => exact ⟨hcalled, trivial⟩
      | crashed message => exact ⟨hcalled, trivial⟩
      | done v =>
        refine ⟨hcalled, ?_⟩
        -- the writes and reports that follow a call see nothing
        dsimp only
        split
        · exact ⟨trivial, trivial, trivial⟩
        · exact ⟨trivial, trivial⟩

/-- The relation `Deed.Sees` holds along what is done when connections are followed.  The induction
is on the derivation: what a node and everything below it do is known to the next connection. -/
theorem sees_following (free : Fields.has actionsKey payload = false) {path : List NodeId}
    {source : NodeId} {branch : Option ConditionType} {edges : List Connection} {ending : Ending}
    (walk : Walks engine g path source branch edges r ending) (knows : Knows payload past r) :
    Deed.Along (Deed.Sees engine g payload) past
      (engine.deedsFollowing g path source branch edges r) := by
  -- induction on the walk, with all that has been seen so far (`Knows`)
  induction walk generalizing past with
  | done =>
    rw [deedsFollowing_nil]
    trivial
  | @skip path source branch c cs r ending untaken rest ih =>
    obtain ⟨-, hdeeds⟩ := follow_of_untaken engine g path source cs r untaken
    rw [hdeeds]
    exact ⟨trivial, ih (knows.reporting _)⟩
  | @refuse path source branch c cs r e taken refusal =>
    obtain ⟨-, hdeeds⟩ := follow_of_refused source cs r taken refusal
    rw [hdeeds]
    trivial
  | @fail path source branch c cs r n e r' taken admitted failed =>
    obtain ⟨-, hdeeds⟩ := follow_of_failed source cs taken admitted failed
    obtain ⟨-, -, hnode⟩ := entry_eq_ok_iff.mp admitted
    rw [hdeeds]
    exact ⟨trivial, sees_deedsAt free (knows.reporting _) hnode⟩
  | @stop path source branch c cs r n below r' e r'' taken admitted acted down ih =>
    obtain ⟨-, hdeeds⟩ := follow_of_stopped source cs taken admitted acted down.follow_eq
    obtain ⟨-, -, hnode⟩ := entry_eq_ok_iff.mp admitted
    have hentered := knows.reporting
      (.nodeEntered c.target (Vocabulary.text n.nodeType) path.length)
    rw [hdeeds]
    exact ⟨trivial, Deed.along_append.mpr
      ⟨sees_deedsAt free hentered hnode, ih (hentered.acted free acted)⟩⟩
  | @pass path source branch c cs r n below r' r'' ending taken admitted acted down rest ihd ihr =>
    obtain ⟨-, hdeeds⟩ := follow_of_passed source cs taken admitted acted down.follow_eq
    obtain ⟨-, -, hnode⟩ := entry_eq_ok_iff.mp admitted
    have hentered := knows.reporting
      (.nodeEntered c.target (Vocabulary.text n.nodeType) path.length)
    have hacted := hentered.acted free acted
    rw [hdeeds]
    exact ⟨trivial, Deed.along_append.mpr ⟨sees_deedsAt free hentered hnode,
      Deed.along_append.mpr ⟨ihd hacted, ihr (hacted.followed free down.follow_eq)⟩⟩⟩

/-- The relation `Deed.Sees` holds along all deeds of a run. -/
theorem sees_deeds (engine : Engine) (workflow : Workflow) (triggerType : String)
    (payload : Fields) (w : World) :
    Deed.Along (Deed.Sees engine (Graph.ofTables w.storage.tables workflow.id) payload) []
      (engine.deeds workflow triggerType payload w) := by
  unfold deeds
  cases hbegin : Run.begin workflow triggerType payload w with
  | error e w' => trivial
  | ok r w' =>
    have hbegun := knows_of_begin hbegin
    have hstarted : Knows payload
        ([] ++ [.inserted r.execution, r.reporting (.executionStarted workflow.id triggerType)])
        r := hbegun.more rfl rfl
    refine ⟨trivial, trivial, Deed.along_append.mpr ⟨?_, ?_⟩⟩
    · unfold deedsTraversing
      split
      · trivial
      · next free =>
        rw [hbegun.triggerData] at free
        cases loaded : Graph.load workflow.id r.world.storage with
        | error e s => trivial
        | ok g s =>
          -- the row that was inserted is no part of the graph
          have hgraph := (Graph.load_eq_ok loaded).trans (ofTables_begin hbegin workflow.id)
          subst hgraph
          exact sees_following (by simpa using free) (walks_follow ..)
            ⟨hstarted.context, hstarted.triggerData, hstarted.running⟩
    · -- neither the report of the outcome nor the last write sees anything
      refine ⟨?_, trivial, trivial⟩
      cases engine.traverse workflow.id r <;> trivial

/-- A result `v` that is recorded stands at `resultPath node`, and below it whatever `Path.descend
v` finds; what other nodes have and what the payload has under other keys is as before.  In a run
every deed `Sees` the payload and the results before it.  And in a context that `Shows` them, a
condition and a template depend only on what its paths are led to. -/
theorem results_are_seen :
    (∀ (e : Execution) (node : NodeId) (v : Json), OpenToResults e.context →
      Path.lookup (e.recordAction node v).context (resultPath node) = some v ∧
      (∀ path : String,
        Path.lookup (e.recordAction node v).context (resultPath node ++ "." ++ path) =
          Path.descend v (Path.segments path.toList)) ∧
      (∀ (other : NodeId) (path : String) (rest : List (List Char)), other ≠ node →
        Path.segments path.toList = actionsKey.toList :: other.chars :: rest →
        Path.lookup (e.recordAction node v).context path = Path.lookup e.context path) ∧
      (∀ path : String, (Path.segments path.toList).head? ≠ some actionsKey.toList →
        Path.lookup (e.recordAction node v).context path = Path.lookup e.context path) ∧
      (e.recordAction node v).actionResult node = some v) ∧
    (∀ (engine : Engine) (workflow : Workflow) (triggerType : String) (payload : Fields)
      (w : World),
      (∀ before d after,
        engine.deeds workflow triggerType payload w = before ++ d :: after →
        d.Sees engine (Graph.ofTables w.storage.tables workflow.id) payload before) ∧
      ∃ news,
        (leftBy (engine.execute workflow triggerType payload w)).events = w.events ++ news ∧
        news.map Event.happening = happeningsOf (engine.deeds workflow triggerType payload w)) ∧
    ∀ (payload : Fields) (results : List (NodeId × Json)) (context : Context),
      Shows payload results context →
      (∀ (c : Condition) (found : Option Json), LeadsTo payload results c.field found →
        c.holds context = c.operator.apply (found.getD .null) c.value) ∧
      ∀ (template : String) (context' : Context),
        (∀ path, Template.Names template path →
          LeadsTo payload results path (Path.lookup context' path)) →
        Template.render template context = Template.render template context' := by
  refine ⟨fun e node v room => ⟨?_, ?_, ?_, ?_, ?_⟩, ?_, ?_⟩
  · exact lookup_withResult e.context node v
  · exact lookup_below_withResult e.context node v
  · exact fun other path rest hne hpath => lookup_withResult_other room hne v hpath
  · exact fun path off => Path.lookup_of_same (same_withResult e.context node v) off
  · rw [actionResult_recordAction, Function.update_self]
  · intro engine workflow triggerType payload w
    refine ⟨fun before d after hsplit => ?_, events_deeds engine workflow triggerType payload w⟩
    have halong := sees_deeds engine workflow triggerType payload w
    rw [hsplit] at halong
    exact halong.holds
  · exact fun payload results context h =>
      ⟨fun c found leads => h.holds_eq leads, fun template context' leads => h.render_eq leads⟩

/-- A condition on what the action has noted. -/
def checkNode : Node :=
  .condition (Uuid.ofHalves 0 2) Uuid.nil (resultPath noteNode.id) "equals" (.string "noted")

def checkConnections : List Connection :=
  [.start Uuid.nil Uuid.nil noteNode.id,
    .between (Uuid.ofHalves 0 1) Uuid.nil noteNode.id checkNode.id]

def checkStorage : Storage :=
  { noteStorage with
    tables := { noteStorage.tables with
      nodes := [noteNode, checkNode]
      connections := checkConnections } }

def checkRun : Run :=
  ⟨leftBy (Run.begin noteWorkflow "event.created" [("name", .string "a")]
      (World.ofStorage checkStorage)),
    Execution.start (checkStorage.ids.next .execution).1 noteWorkflow.id "event.created"
      [("name", .string "a")] checkStorage.clock⟩

theorem checkStorage_connections :
    (Graph.ofTables checkStorage.tables noteWorkflow.id).connections = checkConnections := by
  have hsorted : checkConnections.Pairwise fun a b =>
      decide (a.priority.toInt ≤ b.priority.toInt) = true := by decide
  exact List.mergeSort_of_pairwise hsorted

/-- In a run of `checkStorage` the condition is found to hold. -/
theorem checkNode_reported :
    ∃ stored, .reported (.conditionEvaluated checkNode.id true) stored ∈
      noteEngine.deeds noteWorkflow "event.created" [("name", .string "a")]
        (World.ofStorage checkStorage) := by
  have begun : Run.begin noteWorkflow "event.created" [("name", .string "a")]
      (World.ofStorage checkStorage) = .ok checkRun checkRun.world := rfl
  have loaded : Graph.load noteWorkflow.id checkRun.world.storage =
      .ok (Graph.ofTables checkStorage.tables noteWorkflow.id) checkRun.world.storage :=
    Graph.load_of_calm rfl noteWorkflow.id
  have hstart : (Graph.ofTables checkStorage.tables noteWorkflow.id).startEdges =
      [.start Uuid.nil Uuid.nil noteNode.id] := by
    rw [Graph.startEdges, checkStorage_connections]
    rfl
  have houtgoing : (Graph.ofTables checkStorage.tables noteWorkflow.id).outgoing noteNode.id =
      [.between (Uuid.ofHalves 0 1) Uuid.nil noteNode.id checkNode.id] := by
    rw [Graph.outgoing, checkStorage_connections]
    rfl
  have admitted : noteEngine.entry (Graph.ofTables checkStorage.tables noteWorkflow.id) []
      noteNode.id = .ok noteNode := rfl
  have admitted' : noteEngine.entry (Graph.ofTables checkStorage.tables noteWorkflow.id)
      [noteNode.id] checkNode.id = .ok checkNode := rfl
  -- once the action is done, its result is in the context
  obtain ⟨r, acted, hcontext⟩ : ∃ r, noteEngine.act noteNode (checkRun.after
      (.nodeEntered noteNode.id (Vocabulary.text noteNode.nodeType) 0)) = .ok none r ∧
      r.execution.context = contextOf [("name", .string "a")] [(noteNode.id, .string "noted")] :=
    ⟨_, rfl, rfl⟩
  have hholds : Condition.evaluate checkNode.config r.execution.context = true := by
    rw [hcontext]
    decide +kernel
  let entered := r.after (.nodeEntered checkNode.id (Vocabulary.text checkNode.nodeType) 1)
  have hcheck : entered.reporting (.conditionEvaluated checkNode.id true) ∈
      noteEngine.deedsAt checkNode entered := by
    obtain ⟨-, hdeeds⟩ := act_of_condition noteEngine (n := checkNode) rfl entered
    rw [hdeeds, show entered.execution = r.execution from rfl, hholds]
    exact List.mem_singleton_self _
  refine ⟨entered.world.storage.tables.getExecution entered.execution.id,
    mem_deeds_of_start begun rfl loaded ?_⟩
  rw [hstart]
  refine mem_deedsFollowing_below [] rfl admitted acted ?_
  rw [show (Connection.start Uuid.nil Uuid.nil noteNode.id).target = noteNode.id from rfl,
    houtgoing]
  exact mem_deedsFollowing [] rfl admitted' hcheck

def noteTemplate : String := "\x7b\x7b" ++ resultPath noteNode.id ++ "\x7d\x7d"

theorem names_noteTemplate {path : String} (h : Template.Names noteTemplate path) :
    path = resultPath noteNode.id := by
  obtain ⟨p, hp, rfl⟩ := Template.names_iff.mp h
  have hparts : Template.parse noteTemplate.toList =
      [.literal [], .placeholder (resultPath noteNode.id).toList, .literal []] := by
    decide +kernel
  rw [hparts] at hp
  obtain rfl : p = (resultPath noteNode.id).toList := by simpa using hp
  decide +kernel

/-- A result with a list in it. -/
def noteList : Json := .object [("items", .array [.null, .string "b"])]

def noteExecution : Execution :=
  .start Uuid.nil Uuid.nil "event.created" [("name", .string "a")] default

/-- Of the result `noteList` of `noteNode`, the path `items.1` is looked up below `resultPath
noteNode.id`.  In the run of `checkStorage` the condition and the template find what the action has
noted. -/
theorem note_is_seen :
    Path.lookup (noteExecution.recordAction noteNode.id noteList).context
      (resultPath noteNode.id ++ "." ++ "items.1") = some (.string "b") ∧
    (∃ before stored after,
      noteEngine.deeds noteWorkflow "event.created" [("name", .string "a")]
        (World.ofStorage checkStorage) =
          before ++ .reported (.conditionEvaluated checkNode.id true) stored :: after ∧
      Condition.evaluate checkNode.config
        (contextOf [("name", .string "a")] (resultsOf before)) = true) ∧
    (⟨resultPath noteNode.id, .equals, .string "noted"⟩ : Condition).holds
      (contextOf [("name", .string "a")] [(noteNode.id, .string "noted")]) = true ∧
    Template.render noteTemplate
      (contextOf [("name", .string "a")] [(noteNode.id, .string "noted")]) = "noted" := by
  have free : Fields.has actionsKey [("name", .string "a")] = false := by decide +kernel
  have hleads : LeadsTo [("name", .string "a")] [(noteNode.id, .string "noted")]
      (resultPath noteNode.id) (some (.string "noted")) := .result noteNode.id
  obtain ⟨hrecord, hrun, hread⟩ := results_are_seen
  obtain ⟨hcondition, htemplate⟩ :=
    hread _ _ _ (shows_contextOf free [(noteNode.id, .string "noted")])
  refine ⟨?_, ?_, ?_, ?_⟩
  · have room : OpenToResults noteExecution.context := openToResults_contextOf free []
    obtain ⟨-, hbelow, -⟩ := hrecord noteExecution noteNode.id noteList room
    rw [hbelow]
    rfl
  · obtain ⟨stored, hreported⟩ := checkNode_reported
    obtain ⟨before, after, hsplit⟩ := List.append_of_mem hreported
    obtain ⟨-, n, hnode, -, hholds⟩ := (hrun _ _ _ _ _).1 before _ after hsplit
    have hcheck : (Graph.ofTables checkStorage.tables noteWorkflow.id).node? checkNode.id =
        some checkNode := rfl
    obtain rfl : checkNode = n := Option.some.inj (hcheck.symm.trans hnode)
    exact ⟨before, stored, after, hsplit, hholds⟩
  · rw [hcondition _ _ hleads]
    decide +kernel
  · have hfound : Path.lookup (contextOf [] [(noteNode.id, .string "noted")])
        (resultPath noteNode.id) = some (.string "noted") :=
      shows_contextOf rfl _ _ _ (.result noteNode.id)
    rw [htemplate _ (contextOf [] [(noteNode.id, .string "noted")]) ?_]
    · decide +kernel
    · intro path hpath
      obtain rfl := names_noteTemplate hpath
      rwa [hfound]

end Engine

end TriggerFlow
