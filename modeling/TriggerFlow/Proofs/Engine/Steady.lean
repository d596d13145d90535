import TriggerFlow.Proofs.Engine.Contexts
import TriggerFlow.Proofs.Engine.PathStack
import TriggerFlow.Proofs.Engine.Settlement
import TriggerFlow.Proofs.Graph.Ways
/-!
# Runs of steady nodes

A node is steady if it is certain beforehand whether it acts well, and which of the connections that
leave it are taken then (`Conduct`, `Steady`).  Where all nodes that are `Reached` are steady, it is
certain beforehand whether a run completes: it does so if and only if it `Passes`, that is, there is
a connection from the trigger and the target of every such connection is `Passable`.  How often a
node is entered is certain as well (`entries`).

Nothing of this depends on what happened before: what a walk needs is that a fact `I` about the run
is kept by whatever the nodes do.
-/

namespace TriggerFlow

/-- With the settings `config` an action answers `.done` whenever the store `Runs` the row `id`, and
leaves a store that does. -/
def Action.Serves (a : Action) (config : Config) (id : ExecutionId) : Prop :=
  ∀ context s, Storage.Runs s id →
    ∃ v s', a.run config context s = (.done v, s') ∧ Storage.Runs s' id

namespace Engine

/-- What is certain of a node: `none` if it fails to act, and otherwise the branch on which it goes
on. -/
abbrev Conduct := Node → Option (Option ConditionType)

/-- Nodes that are `Reached` do what `conduct` says, and keep the fact `I` about the run. -/
structure Steady (engine : Engine) (g : Graph) (I : Run → Prop) (conduct : Conduct) : Prop where
  after : ∀ r happening, I r → I (r.after happening)
  fails : ∀ id n r, g.Reached id → g.node? id = some n → conduct n = none → I r →
    ∃ e r', engine.act n r = .error e r' ∧ I r'
  acts : ∀ id n branch r, g.Reached id → g.node? id = some n → conduct n = some branch → I r →
    ∃ below r', engine.act n r = .ok below r' ∧ I r' ∧
      ∀ c ∈ g.outgoing id, takes below c = takes branch c

/-- The node is admitted below `path` and acts, and the target of every connection that is taken
from it is passable below `id :: path`. -/
inductive Passable (engine : Engine) (g : Graph) (conduct : Conduct) : List NodeId → NodeId → Prop
  | intro {path id n branch} (admitted : engine.entry g path id = .ok n)
      (acting : conduct n = some branch)
      (below : ∀ c ∈ g.outgoing id, takes branch c = true →
        Passable engine g conduct (id :: path) c.target) :
      Passable engine g conduct path id

/-- How often the node `x` is entered when `id` is visited below a path; the recursion is that of
the engine. -/
def entries (engine : Engine) (g : Graph) (conduct : Conduct) (x : NodeId) (path : List NodeId)
    (id : NodeId) : Nat :=
  match _h : engine.entry g path id with
  | .error _ => 0
  | .ok n =>
    (if id = x then 1 else 0) +
      match conduct n with
      | none => 0
      | some branch => (((g.outgoing id).filter (takes branch)).map fun c =>
          entries engine g conduct x (id :: path) c.target).sum
termination_by g.remaining path
decreasing_by
  obtain ⟨hnew, -, hnode⟩ := entry_eq_ok_iff.mp _h
  exact Graph.remaining_cons_lt (Graph.mem_ids_of_node? hnode) hnew

variable {engine : Engine} {g : Graph} {path : List NodeId} {id x : NodeId} {n : Node}
  {r r' : Run} {branch : Option ConditionType} {I : Run → Prop} {conduct : Conduct}
  {source : NodeId} {edges : List Connection} {ending : Ending}

theorem entries_of_acting (admitted : engine.entry g path id = .ok n)
    (acting : conduct n = some branch) :
    entries engine g conduct x path id = (if id = x then 1 else 0) +
      (((g.outgoing id).filter (takes branch)).map fun c =>
        entries engine g conduct x (id :: path) c.target).sum := by
  rw [entries]
  split
  · next h =>
    rw [admitted] at h
    cases h
  · next h =>
    obtain rfl := Except.ok.inj (admitted.symm.trans h)
    rw [acting]

theorem passable_iff (admitted : engine.entry g path id = .ok n)
    (acting : conduct n = some branch) :
    Passable engine g conduct path id ↔
      ∀ c ∈ g.outgoing id, takes branch c = true →
        Passable engine g conduct (id :: path) c.target := by
  constructor
  · rintro ⟨admitted', acting', below⟩
    obtain rfl := Except.ok.inj (admitted.symm.trans admitted')
    obtain rfl := Option.some.inj (acting.symm.trans acting')
    exact below
  · exact .intro admitted acting

theorem not_passable_of_refused {e : ExecutionError} (refusal : engine.entry g path id = .error e) :
    ¬ Passable engine g conduct path id := by
  rintro ⟨admitted, -, -⟩
  rw [refusal] at admitted
  cases admitted

theorem not_passable_of_failing (admitted : engine.entry g path id = .ok n)
    (failing : conduct n = none) : ¬ Passable engine g conduct path id := by
  rintro ⟨admitted', acting, -⟩
  obtain rfl := Except.ok.inj (admitted.symm.trans admitted')
  rw [failing] at acting
  cases acting

/-! ### One node -/

theorem Steady.of_error {happening : Happening} {e : ExecutionError}
    (steady : Steady engine g I conduct) (reached : g.Reached id)
    (admitted : engine.entry g path id = .ok n) (hI : I r)
    (h : engine.act n (r.after happening) = .error e r') : conduct n = none ∧ I r' := by
  obtain ⟨-, -, node⟩ := entry_eq_ok_iff.mp admitted
  have hafter := steady.after r happening hI
  cases hconduct : conduct n with
  | none =>
    obtain ⟨e', r'', hact, hkept⟩ := steady.fails id n _ reached node hconduct hafter
    rw [h] at hact
    obtain ⟨-, rfl⟩ := EStateM.Result.error.inj hact
    exact ⟨rfl, hkept⟩
  | some branch =>
    obtain ⟨below, r'', hact, -⟩ := steady.acts id n branch _ reached node hconduct hafter
    rw [h] at hact
    cases hact

/-- A node that is entered and acts was certain to do so, and `conduct` gives a branch that takes
the same connections. -/
theorem Steady.of_ok {happening : Happening} {below : Option ConditionType}
    (steady : Steady engine g I conduct) (reached : g.Reached id)
    (admitted : engine.entry g path id = .ok n) (hI : I r)
    (h : engine.act n (r.after happening) = .ok below r') :
    I r' ∧ ∃ branch, conduct n = some branch ∧
      ∀ c ∈ g.outgoing id, takes below c = takes branch c := by
  obtain ⟨-, -, node⟩ := entry_eq_ok_iff.mp admitted
  have hafter := steady.after r happening hI
  cases hconduct : conduct n with
  | none =>
    obtain ⟨e', r'', hact, -⟩ := steady.fails id n _ reached node hconduct hafter
    rw [h] at hact
    cases hact
  | some branch =>
    obtain ⟨below', r'', hact, hkept, htakes⟩ :=
      steady.acts id n branch _ reached node hconduct hafter
    rw [h] at hact
    obtain ⟨rfl, rfl⟩ := EStateM.Result.ok.inj hact
    exact ⟨hkept, branch, rfl, htakes⟩

/-! ### Connections are followed -/

/-- The connections that are taken lead to nodes that are `Reached`. -/
def Onto (g : Graph) (branch : Option ConditionType) (edges : List Connection) : Prop :=
  ∀ c ∈ edges, takes branch c = true → g.Reached c.target

theorem onto_outgoing (reached : g.Reached id) : Onto g branch (g.outgoing id) :=
  fun _ hc _ => .onward reached hc

/-- A walk keeps the fact `I`, and it is done exactly if the targets of all connections taken are
`Passable`. -/
theorem Steady.isDone_walks (steady : Steady engine g I conduct)
    (h : Walks engine g path source branch edges r ending) (onto : Onto g branch edges)
    (hI : I r) :
    I (leftBy ending) ∧
      (Ending.isDone ending = true ↔
        ∀ c ∈ edges, takes branch c = true → Passable engine g conduct path c.target) := by
  induction h with
  | done => exact ⟨hI, by simp [Ending.isDone]⟩
  | skip untaken rest ih =>
    obtain ⟨-, honto⟩ := List.forall_mem_cons.mp onto
    obtain ⟨hkept, hdone⟩ := ih honto (steady.after _ _ hI)
    refine ⟨hkept, hdone.trans ?_⟩
    simp [untaken]
  | @refuse path source branch c cs r e taken refusal =>
    refine ⟨hI, iff_of_false Bool.false_ne_true fun hall => ?_⟩
    exact not_passable_of_refused refusal (hall c List.mem_cons_self taken)
  | @fail path source branch c cs r n e r' taken admitted failed =>
    have hreached := onto c List.mem_cons_self taken
    obtain ⟨hfailing, hkept⟩ := steady.of_error hreached admitted hI failed
    refine ⟨hkept, iff_of_false Bool.false_ne_true fun hall => ?_⟩
    exact not_passable_of_failing admitted hfailing (hall c List.mem_cons_self taken)
  | @stop path source branch c cs r n below r' e r'' taken admitted acted down ih =>
    have hreached := onto c List.mem_cons_self taken
    obtain ⟨hI', branch', hacting, htakes⟩ := steady.of_ok hreached admitted hI acted
    obtain ⟨hkept, hdone⟩ := ih (onto_outgoing hreached) hI'
    refine ⟨hkept, iff_of_false Bool.false_ne_true fun hall => ?_⟩
    -- if the target could be passed, the walk below it would have come to its end
    have hbelow := (passable_iff admitted hacting).mp (hall c List.mem_cons_self taken)
    refine Bool.false_ne_true (hdone.mpr fun c' hc' htaken => hbelow c' hc' ?_)
    rw [← htakes c' hc', htaken]
  | @pass path source branch c cs r n below r' r'' ending taken admitted acted down rest ihdown
      ihrest =>
    obtain ⟨hreached, honto⟩ := List.forall_mem_cons.mp onto
    obtain ⟨hI', branch', hacting, htakes⟩ := steady.of_ok (hreached taken) admitted hI acted
    obtain ⟨hI'', hdown⟩ := ihdown (onto_outgoing (hreached taken)) hI'
    obtain ⟨hkept, hdone⟩ := ihrest honto hI''
    have hpassable : Passable engine g conduct path c.target := by
      refine .intro admitted hacting fun c' hc' htaken => hdown.mp rfl c' hc' ?_
      rw [htakes c' hc', htaken]
    refine ⟨hkept, hdone.trans ?_⟩
    rw [List.forall_mem_cons]
    exact (and_iff_right fun _ => hpassable).symm

/-! ### Entries are counted -/

open DepthFirst

theorem entriesOf_append (x : NodeId) (hs hs' : List Happening) :
    entriesOf x (hs ++ hs') = entriesOf x hs + entriesOf x hs' := List.countP_append

theorem Acts.entriesOf_eq_zero
    {ending : EStateM.Result ExecutionError Run (Option ConditionType)}
    (h : Acts engine n r ending) :
    ∃ hs, Run.Reports r (leftBy ending) hs ∧ ∀ x, entriesOf x hs = 0 := by
  obtain ⟨hs, hreports, hnone⟩ := h.enters_none
  refine ⟨hs, hreports, fun x => ?_⟩
  rw [entriesOf, List.countP_eq_zero]
  intro happening hmem
  cases happening with
  | nodeEntered id kind depth => exact absurd hmem (hnone id kind depth)
  | _ => exact Bool.false_ne_true

/-- A walk that is done enters each node `x` as often as the `entries` below the connections taken
add up to. -/
theorem Steady.entriesOf_walks (steady : Steady engine g I conduct)
    (h : Walks engine g path source branch edges r ending) (onto : Onto g branch edges)
    (hI : I r) (hdone : Ending.isDone ending = true) :
    ∃ hs, Run.Reports r (leftBy ending) hs ∧ ∀ x, entriesOf x hs =
      ((edges.filter (takes branch)).map fun c =>
        entries engine g conduct x path c.target).sum := by
  induction h with
  | done => exact ⟨[], .refl _, fun x => rfl⟩
  | skip untaken rest ih =>
    obtain ⟨-, honto⟩ := List.forall_mem_cons.mp onto
    obtain ⟨hs, hreports, hcount⟩ := ih honto (steady.after _ _ hI) hdone
    refine ⟨_, (Run.reports_after _ _).trans hreports, fun x => ?_⟩
    rw [entriesOf_append, hcount, List.filter_cons_of_neg (by simp [untaken])]
    exact Nat.zero_add _
  | refuse => cases hdone
  | fail => cases hdone
  | stop => cases hdone
  | @pass path source branch c cs r n below r' r'' ending taken admitted acted down rest ihdown
      ihrest =>
    obtain ⟨hreached, honto⟩ := List.forall_mem_cons.mp onto
    obtain ⟨hI', branch', hacting, htakes⟩ := steady.of_ok (hreached taken) admitted hI acted
    have hI'' := (steady.isDone_walks down (onto_outgoing (hreached taken)) hI').1
    obtain ⟨hs, hreports, hnone⟩ := (acts_of_act acted).entriesOf_eq_zero
    obtain ⟨hs', hreports', hcount'⟩ := ihdown (onto_outgoing (hreached taken)) hI' rfl
    obtain ⟨hs'', hreports'', hcount''⟩ := ihrest honto hI'' hdone
    refine ⟨_, (((Run.reports_after _ _).trans hreports).trans hreports').trans hreports'',
      fun x => ?_⟩
    have hbranch : (g.outgoing c.target).filter (takes below)
        = (g.outgoing c.target).filter (takes branch') := List.filter_congr htakes
    -- the target itself, whatever is entered below it, and whatever is entered after it
    rw [entriesOf_append, entriesOf_append, entriesOf_append, hnone, hcount', hcount'', hbranch,
      List.filter_cons_of_pos taken, List.map_cons, List.sum_cons,
      entries_of_acting admitted hacting, Nat.add_zero]
    congr 2
    rw [entriesOf, List.countP_singleton]
    simp

/-! ### Conditions are evaluated -/

/-- Every `conditionEvaluated` reports the `answer` of a live node with that identifier. -/
def Answered (g : Graph) (answer : Node → Bool) (hs : List Happening) : Prop :=
  ∀ id b, .conditionEvaluated id b ∈ hs → ∃ n, g.node? id = some n ∧ b = answer n

variable {answer : Node → Bool}

theorem Answered.append {hs hs' : List Happening} (h : Answered g answer hs)
    (h' : Answered g answer hs') : Answered g answer (hs ++ hs') := by
  intro id b hmem
  rcases List.mem_append.mp hmem with hmem | hmem
  · exact h id b hmem
  · exact h' id b hmem

theorem answered_nil : Answered g answer [] := fun _ _ hmem => absurd hmem List.not_mem_nil

theorem Acts.answered {ending : EStateM.Result ExecutionError Run (Option ConditionType)}
    (h : Acts engine n r ending) (node : g.node? n.id = some n)
    (hanswer : n.nodeType = .condition →
      Condition.evaluate n.config r.execution.context = answer n) :
    ∃ hs, Run.Reports r (leftBy ending) hs ∧ Answered g answer hs := by
  cases h with
  | trigger => exact ⟨[], .refl r, answered_nil⟩
  | condition kind value =>
    refine ⟨_, Run.reports_after _ _, fun id b hmem => ?_⟩
    obtain ⟨rfl, rfl⟩ := Happening.conditionEvaluated.inj (List.mem_singleton.mp hmem)
    exact ⟨n, node, value ▸ hanswer kind⟩
  | untyped => exact ⟨[], .refl r, answered_nil⟩
  | unknown => exact ⟨[], .refl r, answered_nil⟩
  | invalid => exact ⟨[], .refl r, answered_nil⟩
  | failed => exact ⟨[], Run.reports_withStorage _ _, answered_nil⟩
  | crashed => exact ⟨[], Run.reports_withStorage _ _, answered_nil⟩
  | unkept =>
    exact ⟨[], (Run.reports_recording _ _ _).trans (Run.reports_withStorage _ _), answered_nil⟩
  | completed =>
    refine ⟨_, ((Run.reports_recording _ _ _).trans (Run.reports_withStorage _ _)).trans
      (Run.reports_after _ _), fun id b hmem => ?_⟩
    cases List.mem_singleton.mp hmem

section

variable (steady : Steady engine g I conduct)
  (answers : ∀ id n r, g.Reached id → g.node? id = some n → I r → n.nodeType = .condition →
    Condition.evaluate n.config r.execution.context = answer n)

include steady answers

/-- Of a node that is entered nothing is reported of conditions but its `answer`. -/
theorem Steady.answered_act {kind : String} {depth : Nat}
    {ending : EStateM.Result ExecutionError Run (Option ConditionType)} (reached : g.Reached id)
    (admitted : engine.entry g path id = .ok n) (hI : I r)
    (h : engine.act n (r.after (.nodeEntered id kind depth)) = ending) :
    ∃ hs, Run.Reports r (leftBy ending) hs ∧ Answered g answer hs := by
  obtain ⟨-, -, node⟩ := entry_eq_ok_iff.mp admitted
  have hself : g.node? n.id = some n := by rwa [id_of_node? node]
  obtain ⟨hs, hreports, htells⟩ := (acts_of_act h).answered hself
    (answers id n _ reached node (steady.after _ _ hI))
  have henter : Answered g answer [.nodeEntered id kind depth] := by
    intro id' b hmem
    cases List.mem_singleton.mp hmem
  exact ⟨_, (Run.reports_after _ _).trans hreports, henter.append htells⟩

/-- In a walk conditions are `Answered` as they answer wherever the fact `I` holds. -/
theorem Steady.answered_walks (h : Walks engine g path source branch edges r ending)
    (onto : Onto g branch edges) (hI : I r) :
    ∃ hs, Run.Reports r (leftBy ending) hs ∧ Answered g answer hs := by
  -- the invariant `I` is kept by each node, and with it the answers
  induction h with
  | done => exact ⟨[], .refl _, answered_nil⟩
  | @skip path source branch c cs r ending untaken rest ih =>
    obtain ⟨-, honto⟩ := List.forall_mem_cons.mp onto
    obtain ⟨hs, hreports, htells⟩ := ih honto (steady.after _ _ hI)
    have hskip : Answered g answer [.edgeSkipped source c.target] := by
      intro id b hmem
      cases List.mem_singleton.mp hmem
    exact ⟨_, (Run.reports_after _ _).trans hreports, hskip.append htells⟩
  | refuse => exact ⟨[], .refl _, answered_nil⟩
  | @fail path source branch c cs r n e r' taken admitted failed =>
    exact steady.answered_act answers (onto c List.mem_cons_self taken) admitted hI failed
  | @stop path source branch c cs r n below r' e r'' taken admitted acted down ih =>
    have hreached := onto c List.mem_cons_self taken
    obtain ⟨hs, hreports, htells⟩ := steady.answered_act answers hreached admitted hI acted
    obtain ⟨hs', hreports', htells'⟩ :=
      ih (onto_outgoing hreached) (steady.of_ok hreached admitted hI acted).1
    exact ⟨_, hreports.trans hreports', htells.append htells'⟩
  | @pass path source branch c cs r n below r' r'' ending taken admitted acted down rest ihdown
      ihrest =>
    obtain ⟨hreached, honto⟩ := List.forall_mem_cons.mp onto
    obtain ⟨hs, hreports, htells⟩ := steady.answered_act answers (hreached taken) admitted hI acted
    have hI' := (steady.of_ok (hreached taken) admitted hI acted).1
    obtain ⟨hs', hreports', htells'⟩ := ihdown (onto_outgoing (hreached taken)) hI'
    have hI'' := (steady.isDone_walks down (onto_outgoing (hreached taken)) hI').1
    obtain ⟨hs'', hreports'', htells''⟩ := ihrest honto hI''
    exact ⟨_, (hreports.trans hreports').trans hreports'', (htells.append htells').append htells''⟩

end

/-! ### Whole runs -/

/-- There is a connection from the trigger, and the target of every one is `Passable`. -/
def Passes (engine : Engine) (g : Graph) (conduct : Conduct) : Prop :=
  g.startEdges ≠ [] ∧ ∀ c ∈ g.startEdges, Passable engine g conduct [] c.target

/-- The `entries` below all connections from the trigger. -/
def totalEntries (engine : Engine) (g : Graph) (conduct : Conduct) (x : NodeId) : Nat :=
  (g.startEdges.map fun c => entries engine g conduct x [] c.target).sum

theorem onto_startEdges : Onto g none g.startEdges := fun _ hc _ => .start hc

theorem filter_takes_none (edges : List Connection) : edges.filter (takes none) = edges :=
  List.filter_eq_self.mpr fun _ _ => rfl

/-- In a store without outages and with a free payload, a traversal keeps the fact `I`, is done
exactly if the graph `Passes`, and then enters each node `totalEntries` times. -/
theorem Steady.traverses {workflow : WorkflowId}
    (steady : Steady engine (Graph.ofTables r.world.storage.tables workflow) I conduct)
    (calm : r.world.storage.outages = [])
    (free : Fields.has actionsKey r.execution.triggerData = false) (hI : I r) :
    I (leftBy (engine.traverse workflow r)) ∧
      (Ending.isDone (engine.traverse workflow r) = true ↔
        Passes engine (Graph.ofTables r.world.storage.tables workflow) conduct) ∧
      ((engine.traverse workflow r = .error .noStartNode r ∧
          (Graph.ofTables r.world.storage.tables workflow).startEdges = []) ∨
        Walks engine (Graph.ofTables r.world.storage.tables workflow) [] Uuid.nil none
          (Graph.ofTables r.world.storage.tables workflow).startEdges r
          (engine.traverse workflow r)) := by
  have hload := Graph.load_of_calm calm workflow
  have htraverses := traverses_traverse engine workflow r
  obtain ⟨ending, hending⟩ : ∃ ending, engine.traverse workflow r = ending := ⟨_, rfl⟩
  rw [hending] at htraverses ⊢
  -- a free payload and a calm store leave two cases
  cases htraverses with
  | reserved reserved =>
    rw [free] at reserved
    cases reserved
  | unread free refused =>
    rw [hload] at refused
    cases refused
  | unstarted free loaded idle =>
    rw [hload] at loaded
    obtain ⟨rfl, rfl⟩ := EStateM.Result.ok.inj loaded
    refine ⟨hI, iff_of_false Bool.false_ne_true fun hpasses => hpasses.1 idle, .inl ⟨rfl, idle⟩⟩
  | walked free loaded started walk =>
    rw [hload] at loaded
    obtain ⟨rfl, rfl⟩ := EStateM.Result.ok.inj loaded
    obtain ⟨hkept, hdone⟩ := steady.isDone_walks walk onto_startEdges hI
    refine ⟨hkept, hdone.trans ?_, .inr walk⟩
    simp only [Passes, started, takes, ne_eq, not_false_eq_true, forall_const, true_and]

theorem entriesOf_run (x : NodeId) (workflow : WorkflowId) (triggerType : String)
    (hs : List Happening) (started : Timestamp) (ending : Ending) :
    entriesOf x (.executionStarted workflow triggerType :: (hs ++ [outcome started ending]))
      = entriesOf x hs := by
  rw [← List.singleton_append, entriesOf_append, entriesOf_append]
  cases ending <;> simp [entriesOf, outcome]

theorem answered_run (workflow : WorkflowId) (triggerType : String) (started : Timestamp)
    (ending : Ending) {hs : List Happening} (h : Answered g answer hs) :
    Answered g answer
      (.executionStarted workflow triggerType :: (hs ++ [outcome started ending])) := by
  intro id b hmem
  rcases List.mem_cons.mp hmem with heq | hmem
  · cases heq
  rcases List.mem_append.mp hmem with hmem | hmem
  · exact h id b hmem
  · cases ending <;> cases List.mem_singleton.mp hmem

/-- A row that is `Told` has the status `completed` or `failed`, as the ending is done or not. -/
theorem Told.status {h : Happening} {row : Execution} (told : Told ending h row) :
    (Ending.isDone ending = true → row.status = .completed) ∧
      (Ending.isDone ending = false → row.status = .failed) := by
  cases told with
  | completed status => exact ⟨fun _ => status, nofun⟩
  | failed status => exact ⟨nofun, fun _ => status⟩

/-- What the row and the events of a run of steady nodes say: `completed` or `failed`, as the graph
`Passes` or not, and how often each node is entered. -/
structure Concluded (engine : Engine) (g : Graph) (conduct : Conduct) (row : Execution)
    (hs : List Happening) : Prop where
  completed : Passes engine g conduct → row.status = .completed
  failed : ¬ Passes engine g conduct → row.status = .failed
  entries : Passes engine g conduct → ∀ x, entriesOf x hs = totalEntries engine g conduct x

/-- In a store without outages and with a free payload, a run of steady nodes ends with a row that
is `Concluded` as `conduct` says; and its conditions are `Answered` with whatever is certain of
them. -/
theorem execute_of_steady {workflow : Workflow} (triggerType : String) {payload : Fields}
    {w : World} (calm : w.storage.outages = [])
    (new : ∀ row ∈ w.storage.tables.executions, row.id ≠ (w.storage.ids.next .execution).1)
    (free : Fields.has actionsKey payload = false)
    (steady : Steady engine (Graph.ofTables w.storage.tables workflow.id) I conduct)
    (sound : ∀ r, I r → r.Sound (w.storage.ids.next .execution).1)
    (begun : ∀ r, r.Sound (w.storage.ids.next .execution).1 → r.execution.context = payload → I r) :
    ∃ w' row news,
      engine.execute workflow triggerType payload w = .ok (w.storage.ids.next .execution).1 w' ∧
      w'.storage.tables.getExecution (w.storage.ids.next .execution).1 = some row ∧
      w'.events = w.events ++ news ∧
      Concluded engine (Graph.ofTables w.storage.tables workflow.id) conduct row
        (news.map Event.happening) ∧
      ∀ answer, (∀ id n r, (Graph.ofTables w.storage.tables workflow.id).Reached id →
          (Graph.ofTables w.storage.tables workflow.id).node? id = some n → I r →
          n.nodeType = .condition → Condition.evaluate n.config r.execution.context = answer n) →
        Answered (Graph.ofTables w.storage.tables workflow.id) answer
          (news.map Event.happening) := by
  obtain ⟨r, hbegin, hid, hpayload, hcalm, hsound⟩ :=
    begin_of_calm workflow triggerType payload calm
  rw [← hid] at new sound begun ⊢
  have hgraph := ofTables_begin hbegin workflow.id
  rw [← hgraph] at steady ⊢
  have hI : I r := begun r (hsound new) (knows_of_begin hbegin).context
  obtain ⟨hkept, hdone, hwalk⟩ := steady.traverses hcalm (hpayload ▸ free) hI
  have hsound' := sound _ hkept
  -- the row is still in progress, so that the outcome can be written
  have htaken : (leftBy (engine.traverse workflow.id r)).world.storage.accepts
      (closing (engine.traverse workflow.id r)) = true := by
    have hruns := hsound'.stored
    rw [← hsound'.id_eq, ← closing_id] at hruns
    obtain ⟨stored, t, hwritten, -⟩ := Storage.updateExecution_of_runs _ hruns
    exact Storage.accepts_eq_true_iff.mpr ⟨_, hwritten⟩
  obtain ⟨row, hrow, htold⟩ := (settled_of_begun hbegin).taken htaken
  have hexecute : engine.execute workflow triggerType payload w
      = .ok r.execution.id (conclude w.now (engine.traverse workflow.id r)) := by
    rw [execute_apply, hbegin]
  obtain ⟨news, hevents, hnews⟩ :=
    events_execute hbegin (steps_traverse engine workflow.id r).reports.1
  rw [hexecute, leftBy_ok] at hevents
  refine ⟨_, row, news, hexecute, hrow, hevents, ⟨?_, ?_, ?_⟩, ?_⟩
  · exact fun hpasses => htold.status.1 (hdone.mpr hpasses)
  · exact fun hpasses => htold.status.2 (Bool.eq_false_iff.mpr fun h => hpasses (hdone.mp h))
  · intro hpasses x
    rcases hwalk with ⟨-, idle⟩ | walk
    · exact absurd idle hpasses.1
    · obtain ⟨hs, hreports, hcount⟩ :=
        steady.entriesOf_walks walk onto_startEdges hI (hdone.mpr hpasses)
      rw [hnews, entriesOf_run, (steps_traverse engine workflow.id r).reports.1.unique hreports,
        hcount, filter_takes_none, totalEntries]
  · intro answer hanswer
    rw [hnews]
    apply answered_run
    rcases hwalk with ⟨hidle, -⟩ | walk
    · have hreports : Run.Reports r (leftBy (engine.traverse workflow.id r)) [] := by
        rw [hidle]
        exact .refl r
      rw [(steps_traverse engine workflow.id r).reports.1.unique hreports]
      exact answered_nil
    · obtain ⟨hs, hreports, hanswered⟩ :=
        steady.answered_walks hanswer walk onto_startEdges hI
      rw [(steps_traverse engine workflow.id r).reports.1.unique hreports]
      exact hanswered

/-! ### Actions that serve -/

/-- A call of an action that `Serves` completes with `recordAction` of some result, and the run
stays `Sound`. -/
theorem called_of_serves {t : String} {a : Action} {run : ExecutionId}
    (serves : a.Serves n.config run) (h : r.Sound run) :
    ∃ v r', called n t a r = .ok none r' ∧ r'.Sound run ∧
      r'.execution = r.execution.recordAction n.id v := by
  obtain ⟨v, s, hran, hruns⟩ := serves r.execution.context r.world.storage h.stored
  obtain ⟨s', hwritten, hruns'⟩ := updateExecution_recordAction h hruns n.id v
  have hsound : ((r.recording n.id v).withStorage s').Sound run :=
    ⟨h.id_eq, h.status, h.error, hruns'⟩
  refine ⟨v, _, ?_,
    sound_after hsound (.actionCompleted n.id t (r.world.now.millisSince s.clock)), rfl⟩
  rw [called, hran]
  dsimp only
  rw [hwritten]

end Engine

end TriggerFlow
