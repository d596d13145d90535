import TriggerFlow.Proofs.Engine.Journal
import TriggerFlow.Proofs.Graph.Depths
import TriggerFlow.Proofs.Graph.Priority
/-!
# Runs go depth first

What a run reports of nodes, conditions and connections is a depth-first walk of the graph that it
has loaded (`execute_goes_depth_first`).  A derivation of the run gives a derivation of the walk
(`strolls_of_walks`): what a node reports while it acts is the outcome of its condition, if it has
one, and this is the outcome on which the connections below it are closed.
-/

namespace TriggerFlow.Engine

open DepthFirst

variable {engine : Engine} {g : Graph} {n : Node} {r : Run}

/-! ### One node -/

/-- The engine skips a connection, `takes branch c = false`, exactly if the outcome behind the
branch makes it `Closed`. -/
theorem takes_eq_false_iff {result : Option Bool} {c : Connection} :
    takes (result.map ConditionType.ofBool) c = false ↔ Closed result c := by
  unfold takes Closed
  cases result with
  | none => simp
  | some b =>
    cases hbranch : c.branch with
    | none => simp
    | some tag =>
      rw [Option.map_some, beq_eq_false_iff_ne]
      constructor
      · exact fun h => ⟨b, tag, rfl, rfl, h.symm⟩
      · rintro ⟨b', tag', hb, htag, h⟩
        obtain rfl := Option.some.inj hb
        obtain rfl := Option.some.inj htag
        exact h.symm

theorem takes_eq_true_iff {result : Option Bool} {c : Connection} :
    takes (result.map ConditionType.ofBool) c = true ↔ ¬ Closed result c := by
  rw [← takes_eq_false_iff, Bool.not_eq_false]

/-- While a node acts, the outcome of its condition is all of its reports that `isMove` keeps, and
it is the branch that is answered.  Only a condition has one. -/
theorem Acts.outcome {ending : EStateM.Result ExecutionError Run (Option ConditionType)}
    (h : Acts engine n r ending) :
    ∃ result : Option Bool, (result.isSome = true ↔ n.nodeType = .condition) ∧
      (∃ hs, Run.Reports r (leftBy ending) hs ∧
        hs.filter Happening.isMove = (result.map (.conditionEvaluated n.id)).toList) ∧
      (∀ below r', ending = .ok below r' → below = result.map ConditionType.ofBool) ∧
      (∀ e r', ending = .error e r' → result = none) := by
  -- only a condition makes a move of its own
  have hsilent {r' : Run} (hr : Run.Reports r r' []) :
      ∃ hs, Run.Reports r r' hs ∧
        hs.filter Happening.isMove
          = ((none : Option Bool).map (Happening.conditionEvaluated n.id)).toList :=
    ⟨[], hr, rfl⟩
  cases h with
  | trigger kind =>
    exact ⟨none, by simp [kind], hsilent (.refl r), by simp, by simp⟩
  | @condition result kind value =>
    exact ⟨some result, by simp [kind], ⟨_, Run.reports_after _ _, rfl⟩, by simp, by simp⟩
  | untyped kind => exact ⟨none, by simp [kind], hsilent (.refl r), by simp, by simp⟩
  | unknown kind => exact ⟨none, by simp [kind], hsilent (.refl r), by simp, by simp⟩
  | invalid kind => exact ⟨none, by simp [kind], hsilent (.refl r), by simp, by simp⟩
  | failed kind =>
    exact ⟨none, by simp [kind], hsilent (Run.reports_withStorage _ _), by simp, by simp⟩
  | crashed kind =>
    exact ⟨none, by simp [kind], hsilent (Run.reports_withStorage _ _), by simp, by simp⟩
  | unkept kind =>
    exact ⟨none, by simp [kind],
      hsilent ((Run.reports_recording _ _ _).trans (Run.reports_withStorage _ _)), by simp, by simp⟩
  | @completed t a s result s' ms kind =>
    refine ⟨none, by simp [kind], ⟨[.actionCompleted n.id t ms], ?_, rfl⟩, by simp, by simp⟩
    exact ((Run.reports_recording _ _ _).trans (Run.reports_withStorage _ _)).trans
      (Run.reports_after _ _)

/-- Entering a node and acting is one `Move.enter`: what is reported are its happenings, and its
outcome is the branch that is answered. -/
theorem Acts.enters {id : NodeId}
    {ending : EStateM.Result ExecutionError Run (Option ConditionType)} {base : Route} {i : Nat}
    (node : g.node? id = some n)
    (h : Acts engine n (r.after (.nodeEntered id (Vocabulary.text n.nodeType) base.length))
      ending) :
    ∃ result : Option Bool, (result.isSome = true ↔ n.nodeType = .condition) ∧
      (∃ hs, Run.Reports r (leftBy ending) hs ∧
        hs.filter Happening.isMove = (Move.enter (base ++ [i]) n result).happenings) ∧
      (∀ below r', ending = .ok below r' → below = result.map ConditionType.ofBool) ∧
      (∀ e r', ending = .error e r' → result = none) := by
  obtain ⟨result, hkind, ⟨hs, hreports, hmoves⟩, hok, herror⟩ := h.outcome
  refine ⟨result, hkind, ⟨_, (Run.reports_after _ _).trans hreports, ?_⟩, hok, herror⟩
  rw [List.filter_append, hmoves, Move.happenings, id_of_node? node]
  simp [Happening.isMove, List.filter_cons]

/-! ### A list of connections -/

def Ending.isDone : Ending → Bool
  | .ok _ _ => true
  | .error _ _ => false

/-- A run that follows connections reports the moves of `Strolls` along them, and these are whole if
the ending is done. -/
theorem strolls_of_walks {path : List NodeId} {source : NodeId} {branch : Option ConditionType}
    {edges : List Connection} {ending : Ending}
    (h : Walks engine g path source branch edges r ending) (base : Route) (i : Nat)
    {result : Option Bool} (hbase : base.length = path.length)
    (hbranch : branch = result.map ConditionType.ofBool) :
    ∃ hs moves, Run.Reports r (leftBy ending) hs ∧
      hs.filter Happening.isMove = moves.flatMap Move.happenings ∧
      Strolls g base source result i edges moves (Ending.isDone ending) := by
  induction h generalizing base i result with
  | done => exact ⟨[], [], .refl _, rfl, .done⟩
  | skip untaken rest ih =>
    subst hbranch
    obtain ⟨hs, moves, hreports, hmoves, hstrolls⟩ := ih base (i + 1) hbase rfl
    refine ⟨_, _, (Run.reports_after _ _).trans hreports, ?_,
      .skip (takes_eq_false_iff.mp untaken) hstrolls⟩
    rw [List.filter_append, hmoves, List.flatMap_cons]
    rfl
  | refuse taken refusal =>
    subst hbranch
    exact ⟨[], [], .refl _, rfl, .refuse (takes_eq_true_iff.mp taken)⟩
  | @fail path source branch c cs r n e r' taken admitted failed =>
    subst hbranch
    obtain ⟨-, -, node⟩ := entry_eq_ok_iff.mp admitted
    have hacts := acts_of_act failed
    -- the depth that is reported is the length of the place
    rw [← hbase] at hacts
    obtain ⟨below, hkind, ⟨hs, hreports, hmoves⟩, -, herror⟩ := hacts.enters node (i := i)
    -- a node that fails to act has no outcome
    obtain rfl := herror _ _ rfl
    refine ⟨hs, _, hreports, ?_, .fail (takes_eq_true_iff.mp taken) node (by simpa using hkind)⟩
    rw [hmoves, List.flatMap_singleton]
  | @stop path source branch c cs r n below r' e r'' taken admitted acted down ih =>
    subst hbranch
    obtain ⟨-, -, node⟩ := entry_eq_ok_iff.mp admitted
    have hacts := acts_of_act acted
    rw [← hbase] at hacts
    obtain ⟨outcome, hkind, ⟨hs, hreports, hmoves⟩, hok, -⟩ := hacts.enters node (i := i)
    obtain ⟨hs', moves, hreports', hmoves', hstrolls⟩ :=
      ih (base ++ [i]) 0 (by simp [hbase]) (hok _ _ rfl)
    refine ⟨_, _, hreports.trans hreports', ?_,
      .stop (takes_eq_true_iff.mp taken) node hkind hstrolls⟩
    rw [List.filter_append, hmoves, hmoves', List.flatMap_cons]
  | @pass path source branch c cs r n below r' r'' ending taken admitted acted down rest ihdown
      ihrest =>
    subst hbranch
    obtain ⟨-, -, node⟩ := entry_eq_ok_iff.mp admitted
    have hacts := acts_of_act acted
    rw [← hbase] at hacts
    obtain ⟨outcome, hkind, ⟨hs, hreports, hmoves⟩, hok, -⟩ := hacts.enters node (i := i)
    -- below the node positions are counted anew, beside it they go on
    obtain ⟨hs', moves, hreports', hmoves', hstrolls⟩ :=
      ihdown (base ++ [i]) 0 (by simp [hbase]) (hok _ _ rfl)
    obtain ⟨hs'', moves', hreports'', hmoves'', hstrolls'⟩ := ihrest base (i + 1) hbase rfl
    refine ⟨_, _, (hreports.trans hreports').trans hreports'', ?_,
      .pass (takes_eq_true_iff.mp taken) node hkind hstrolls hstrolls'⟩
    rw [List.filter_append, List.filter_append, hmoves, hmoves', hmoves'', List.flatMap_cons,
      List.flatMap_append, List.append_assoc]

/-! ### A whole run -/

/-- The reports of a traversal tell a walk of the loaded graph, whatever else is reported among
them: `Tells`, and `TellsAll` if the ending is done. -/
theorem Traverses.tells {workflow : WorkflowId} {ending : Ending}
    (h : Traverses engine workflow r ending) :
    ∃ hs moves, Run.Reports r (leftBy ending) hs ∧
      ∀ hs', hs'.filter Happening.isMove = hs.filter Happening.isMove →
        Tells (Graph.ofTables r.world.storage.tables workflow) hs' moves ∧
        (Ending.isDone ending = true →
          TellsAll (Graph.ofTables r.world.storage.tables workflow) hs' moves) := by
  -- what ends before the walk starts has made no move
  cases h with
  | reserved => exact ⟨[], [], .refl r, fun hs' h => ⟨tells_nothing h, by simp [Ending.isDone]⟩⟩
  | unread =>
    exact ⟨[], [], Run.reports_withStorage _ _,
      fun hs' h => ⟨tells_nothing h, by simp [Ending.isDone]⟩⟩
  | unstarted =>
    exact ⟨[], [], Run.reports_withStorage _ _,
      fun hs' h => ⟨tells_nothing h, by simp [Ending.isDone]⟩⟩
  | walked free loaded started walk =>
    obtain rfl := Graph.load_eq_ok loaded
    obtain ⟨hs, moves, hreports, hmoves, hstrolls⟩ :=
      strolls_of_walks walk [] 0 rfl (Option.map_none (f := ConditionType.ofBool)).symm
    refine ⟨hs, moves, (Run.reports_withStorage _ _).trans hreports, fun hs' h => ⟨?_, ?_⟩⟩
    · exact hstrolls.tells (h.trans hmoves)
    · intro hdone
      rw [hdone] at hstrolls
      exact hstrolls.tellsAll (h.trans hmoves)

/-- For every run, the reports of nodes, conditions and connections are a depth-first walk of
`Graph.ofTables`, the workflow's graph as it is when the run begins.  The walk is whole if the last
report is `executionCompleted`; and the connections that leave a place are the usable rows that
start there, `ByPriority`. -/
theorem execute_goes_depth_first (engine : Engine) (workflow : Workflow) (triggerType : String)
    (payload : Fields) (w : World) :
    let g := Graph.ofTables w.storage.tables workflow.id
    let rows := Graph.usableRows w.storage.tables workflow.id
    (∃ news moves,
      (leftBy (engine.execute workflow triggerType payload w)).events = w.events ++ news ∧
      Tells g (news.map Event.happening) moves ∧
      ∀ ms, (news.map Event.happening).getLast? = some (.executionCompleted ms) →
        TellsAll g (news.map Event.happening) moves) ∧
    ByPriority (rows.filter fun c => c.source.isNone) g.startEdges ∧
    ∀ id, ByPriority (rows.filter fun c => c.source == some id) (g.outgoing id) := by
  dsimp only
  refine ⟨?_, Graph.byPriority_startEdges _ _, Graph.byPriority_outgoing _ _⟩
  cases hbegin : Run.begin workflow triggerType payload w with
  | error e w' =>
    refine ⟨[], [], ?_, tells_nothing rfl, by simp⟩
    rw [events_execute_of_refused hbegin, List.append_nil]
  | ok r w' =>
    obtain ⟨hs, moves, hreports, htells⟩ := (traverses_traverse engine workflow.id r).tells
    rw [ofTables_begin hbegin] at htells
    obtain ⟨news, hevents, hnews⟩ := events_execute hbegin hreports
    -- neither the start nor the outcome is a move
    have hmoves : (news.map Event.happening).filter Happening.isMove
        = hs.filter Happening.isMove := by
      have hlast : ¬ Happening.isMove (outcome w.now (engine.traverse workflow.id r)) = true := by
        cases engine.traverse workflow.id r <;> exact Bool.false_ne_true
      rw [hnews, List.filter_cons_of_neg Bool.false_ne_true, List.filter_append,
        List.filter_cons_of_neg hlast, List.filter_nil, List.append_nil]
    obtain ⟨htells, hall⟩ := htells _ hmoves
    refine ⟨news, moves, hevents, htells, ?_⟩
    intro ms hlast
    apply hall
    rw [hnews, ← List.cons_append, List.getLast?_concat] at hlast
    cases hending : engine.traverse workflow.id r with
    | ok => rfl
    | error e r' => simp [hending, outcome] at hlast

end TriggerFlow.Engine
