import TriggerFlow.Proofs.Engine.Causes
import TriggerFlow.Proofs.Engine.Completion
/-!
# The bound on the depth

The bound on the number of nodes on a path does nothing to a run but end it.  Whatever ends in
another way under some bound ends so under every greater one (`Walks.deepen`, `Traverses.deepen`):
the run is the same, event for event, and leaves the same store.

Nodes on a path differ from one another, and so the bound ends no run if there are fewer live nodes
than it allows; and if the connections lead to live nodes only, there may be as many
(`maxDepth_le_of_exceeded`).  Both parts together are `execute_withMaxDepth`.
-/

namespace TriggerFlow.Engine

/-- The engine with another bound. -/
def withMaxDepth (engine : Engine) (maxDepth : Nat) : Engine := { engine with maxDepth }

/-- The part of a run does not end with `maxDepthExceeded`. -/
def InBounds (ending : Ending) : Prop :=
  ∀ maxDepth r, ending ≠ .error (.maxDepthExceeded maxDepth) r

variable {engine : Engine} {g : Graph} {path : List NodeId} {id : NodeId} {source : NodeId}
  {branch : Option ConditionType} {edges : List Connection} {workflow : WorkflowId} {r r' : Run}
  {ending : Ending} {deeper n : Nat}

/-! ### Under a greater bound -/

/-- The answer of `Engine.entry` is the same under every greater bound, unless it refuses a node for
the bound. -/
theorem entry_withMaxDepth (hle : engine.maxDepth ≤ deeper)
    (h : ∀ maxDepth, engine.entry g path id ≠ .error (.maxDepthExceeded maxDepth)) :
    (engine.withMaxDepth deeper).entry g path id = engine.entry g path id := by
  cases hentry : engine.entry g path id with
  | ok n =>
    obtain ⟨hnew, hdepth, hnode⟩ := entry_eq_ok_iff.mp hentry
    exact entry_eq_ok_iff.mpr ⟨hnew, hdepth.trans_le hle, hnode⟩
  | error e =>
    rw [entry_eq_error_iff]
    rcases entry_eq_error_iff.mp hentry with hback | ⟨-, -, rfl⟩ | ⟨hnew, hdepth, hmissing⟩
    · exact .inl hback
    · exact absurd hentry (h _)
    · exact .inr (.inr ⟨hnew, hdepth.trans_le hle, hmissing⟩)

/-- Connections are followed in the same way under a greater bound, unless the bound is what ends
it.  What a node does when it acts does not depend on the bound. -/
theorem Walks.deepen (h : Walks engine g path source branch edges r ending)
    (hle : engine.maxDepth ≤ deeper) (inBounds : InBounds ending) :
    Walks (engine.withMaxDepth deeper) g path source branch edges r ending := by
  have hadmitted {path : List NodeId} {id : NodeId} {n : Node}
      (admitted : engine.entry g path id = .ok n) :
      (engine.withMaxDepth deeper).entry g path id = .ok n := by
    rw [entry_withMaxDepth hle (by simp [admitted]), admitted]
  induction h with
  | done => exact .done
  | skip untaken rest ih => exact .skip untaken (ih inBounds)
  | @refuse path source branch c cs r e taken refusal =>
    refine .refuse taken ?_
    rw [entry_withMaxDepth hle fun maxDepth hexceeded => ?_, refusal]
    -- a refusal for the bound would be what ends the walk
    obtain rfl := Except.error.inj (refusal.symm.trans hexceeded)
    exact inBounds maxDepth r rfl
  | fail taken admitted failed => exact .fail taken (hadmitted admitted) failed
  | @stop path source branch c cs r n below r' e r'' taken admitted acted down ih =>
    exact .stop taken (hadmitted admitted) acted (ih inBounds)
  | pass taken admitted acted down rest ihdown ihrest =>
    exact .pass taken (hadmitted admitted) acted (ihdown nofun) (ihrest inBounds)

theorem Traverses.deepen (h : Traverses engine workflow r ending) (hle : engine.maxDepth ≤ deeper)
    (inBounds : InBounds ending) : Traverses (engine.withMaxDepth deeper) workflow r ending := by
  cases h with
  | reserved reserved => exact .reserved reserved
  | unread free refused => exact .unread free refused
  | unstarted free loaded idle => exact .unstarted free loaded idle
  | walked free loaded started walk =>
    exact .walked free loaded started (walk.deepen hle inBounds)

theorem traverse_withMaxDepth (hle : engine.maxDepth ≤ deeper)
    (inBounds : InBounds (engine.traverse workflow r)) :
    (engine.withMaxDepth deeper).traverse workflow r = engine.traverse workflow r :=
  ((traverses_traverse engine workflow r).deepen hle inBounds).traverse_eq

/-! ### Where the bound is met -/

/-- If a node is refused for the bound, `engine.maxDepth` live nodes stand on the path above it.  If
every connection leads to a live node, it is one more. -/
theorem maxDepth_le_of_blames {I : Run → Prop} {hs : List Happening}
    (h : Blames engine g I hs (.maxDepthExceeded n)) :
    engine.maxDepth ≤ g.ids.length ∧
      ((∀ c ∈ g.connections, c.target ∈ g.ids) → engine.maxDepth < g.ids.length) := by
  cases h with
  | @refused path c _ on_path edge refusal =>
    have hdepth : c.target ∉ path ∧ engine.maxDepth ≤ path.length := by
      rcases entry_eq_error_iff.mp refusal with ⟨-, he⟩ | ⟨hnew, hdepth, -⟩ | ⟨-, -, -, he⟩
      · cases he
      · exact ⟨hnew, hdepth⟩
      · cases he
    have hlength := on_path.length_le
    rw [List.length_reverse] at hlength
    refine ⟨hdepth.2.trans hlength, fun hlive => ?_⟩
    have hlonger := (on_path.push edge hdepth.1
      (hlive c (Graph.mem_connections_of_edgesBelow edge))).length_le
    rw [List.length_reverse, List.length_cons] at hlonger
    omega
  | failed node entered kept acted =>
    -- nodes fail for reasons of their own
    cases acted

theorem maxDepth_le_of_exceeded
    (h : engine.traverse workflow r = .error (.maxDepthExceeded n) r') :
    let g := Graph.ofTables r.world.storage.tables workflow
    engine.maxDepth ≤ g.ids.length ∧
      ((∀ c ∈ g.connections, c.target ∈ g.ids) → engine.maxDepth < g.ids.length) := by
  obtain ⟨hs, -, -, hcauses⟩ :=
    (traverses_traverse engine workflow r).blames (keeps_true engine) fun _ _ _ => trivial
  rcases hcauses _ _ h with ⟨he, -⟩ | ⟨e', s, he, -⟩ | ⟨he, -⟩ | hblames
  · cases he
  · cases he
  · cases he
  · exact maxDepth_le_of_blames hblames

/-! ### Whole runs -/

variable {triggerType : String} {payload : Fields} {w : World}

theorem inBounds_of_failure? {workflow : Workflow}
    (hbegin : Run.begin workflow triggerType payload w = .ok r r.world)
    (h : ∀ n, engine.failure? workflow triggerType payload w ≠ some (.maxDepthExceeded n)) :
    InBounds (engine.traverse workflow.id r) :=
  fun n _ hexceeded => h n ((failure?_eq_some_iff hbegin).mpr ⟨_, hexceeded⟩)

/-- A run that does not end with `maxDepthExceeded` is equal to the run under every greater bound:
`execute` and `failure?` give the same.  No run ends so if there are fewer live nodes than the
bound, or as many and no connection dangles. -/
theorem execute_withMaxDepth (engine : Engine) (workflow : Workflow) (triggerType : String)
    (payload : Fields) (w : World) :
    let g := Graph.ofTables w.storage.tables workflow.id
    ((∀ n, engine.failure? workflow triggerType payload w ≠ some (.maxDepthExceeded n)) →
      ∀ deeper, engine.maxDepth ≤ deeper →
        (engine.withMaxDepth deeper).execute workflow triggerType payload w =
          engine.execute workflow triggerType payload w ∧
        (engine.withMaxDepth deeper).failure? workflow triggerType payload w =
          engine.failure? workflow triggerType payload w) ∧
    (g.ids.length < engine.maxDepth ∨
        (g.ids.length ≤ engine.maxDepth ∧ ∀ c ∈ g.connections, c.target ∈ g.ids) →
      ∀ n, engine.failure? workflow triggerType payload w ≠ some (.maxDepthExceeded n)) := by
  dsimp only
  constructor
  · intro h deeper hle
    rw [execute_apply, execute_apply, failure?, failure?]
    cases hbegin : Run.begin workflow triggerType payload w with
    | error e w' => exact ⟨rfl, rfl⟩
    | ok r w' =>
      obtain ⟨-, -, -, rfl⟩ := begin_eq_ok hbegin
      dsimp only
      rw [traverse_withMaxDepth hle (inBounds_of_failure? hbegin h)]
      exact ⟨rfl, rfl⟩
  · intro hwide n hexceeded
    cases hbegin : Run.begin workflow triggerType payload w with
    | error e w' =>
      rw [failure?, hbegin] at hexceeded
      cases hexceeded
    | ok r w' =>
      obtain ⟨r', hending⟩ := (failure?_eq_some_iff hbegin).mp hexceeded
      -- the path had `maxDepth` live nodes, and a live target that was refused is one more
      obtain ⟨hle, hlt⟩ := maxDepth_le_of_exceeded hending
      rw [ofTables_begin hbegin] at hle hlt
      rcases hwide with hfewer | ⟨hmany, hlive⟩
      · omega
      · have hfewer := hlt hlive
        omega

/-- In `circlingStorage` the one live node leads back to itself, so that a run ends by the cycle
before the bound of one level is met, and under every greater bound in the same way. -/
theorem circlingStorage_needs_one_level :
    (∀ n, (noteEngine.withMaxDepth 1).failure? noteWorkflow "event.created" []
        (World.ofStorage circlingStorage) ≠ some (.maxDepthExceeded n)) ∧
      ∀ deeper, 1 ≤ deeper →
        (noteEngine.withMaxDepth deeper).execute noteWorkflow "event.created" []
            (World.ofStorage circlingStorage) =
          (noteEngine.withMaxDepth 1).execute noteWorkflow "event.created" []
            (World.ofStorage circlingStorage) := by
  have htargets : ∀ c ∈ circlingStorage.tables.connections, c.target = noteNode.id := by decide
  have hlive : ∀ c ∈ (Graph.ofTables circlingStorage.tables noteWorkflow.id).connections,
      c.target ∈ (Graph.ofTables circlingStorage.tables noteWorkflow.id).ids := by
    intro c hc
    obtain ⟨hlisted, -⟩ := Graph.mem_connections_ofRows.mp hc
    rw [htargets c (List.mem_filter.mp hlisted).1]
    exact List.mem_singleton.mpr rfl
  obtain ⟨hsame, hwide⟩ := execute_withMaxDepth (noteEngine.withMaxDepth 1) noteWorkflow
    "event.created" [] (World.ofStorage circlingStorage)
  have hfree := hwide (.inr ⟨le_of_eq rfl, hlive⟩)
  exact ⟨hfree, fun deeper hle => (hsame hfree deeper hle).1⟩

end TriggerFlow.Engine
