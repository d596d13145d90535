import TriggerFlow.Proofs.Engine.Deeds
/-!
# Two runs in lockstep

Two runs take the same way through a graph if they know the same and if the actions that they call
answer the same, whatever else may differ between them: the store, the clock, the identifier of the
run.  Neither run decides anything by what differs.

`Lockstep` names a relation between the states of the two runs and says what it has to keep; the
rest of the argument, over all nodes and connections, is made here once (`Lockstep.follow`,
`Lockstep.traverse`).  That the runs take the same way is said of their deeds: these are the same up
to times, identifiers and what stands in the store (`Deed.outline`).
-/

namespace TriggerFlow

/-! ### Without times and identifiers -/

def Happening.untimed : Happening → Happening
  | actionCompleted node actionType _ => actionCompleted node actionType 0
  | executionCompleted _ => executionCompleted 0
  | executionFailed error _ => executionFailed error 0
  | h => h

/-- A row without its identifier, `startedAt` and `completedAt`. -/
def Execution.outline (e : Execution) : Execution :=
  { e with id := Uuid.nil, startedAt := default, completedAt := none }

/-- A deed up to what may differ between two runs: identifiers, times and what it found in the
store. -/
def Deed.outline : Deed → Deed
  | inserted row => inserted row.outline
  | called node context verdict => called node context verdict
  | wrote row accepted => wrote row.outline accepted
  | reported h _ => reported h.untimed none

/-- The results are equal, as values or as errors, and their states are related by `R`. -/
inductive Together {ε σ α : Type} (R : σ → σ → Prop) :
    EStateM.Result ε σ α → EStateM.Result ε σ α → Prop
  | ok {a s s'} (related : R s s') : Together R (.ok a s) (.ok a s')
  | error {e s s'} (related : R s s') : Together R (.error e s) (.error e s')

theorem Together.leftBy {ε σ α : Type} {R : σ → σ → Prop} {x y : EStateM.Result ε σ α}
    (h : Together R x y) : R (leftBy x) (leftBy y) := by
  cases h with
  | ok related => exact related
  | error related => exact related

namespace Engine

variable {engine twin : Engine} {P : List Deed → List Deed → Prop} {R : Run → Run → Prop}
  {g : Graph} {r r' : Run}

/-! ### Engines with the same rules -/

/-- Two engines with the same `maxDepth` that know actions under the same names, with the same
`validate`. -/
structure Twins (engine twin : Engine) : Prop where
  maxDepth : twin.maxDepth = engine.maxDepth
  actions : ∀ t, (twin.catalogue.action? t).map Action.validate =
    (engine.catalogue.action? t).map Action.validate

theorem Twins.refl (engine : Engine) : engine.Twins engine := ⟨rfl, fun _ => rfl⟩

theorem Twins.entry (twins : engine.Twins twin) (g : Graph) (path : List NodeId) (id : NodeId) :
    twin.entry g path id = engine.entry g path id := by
  unfold Engine.entry
  rw [twins.maxDepth]

/-- Twins both have an `action?` for a node, or both none and the same `refusal`. -/
theorem Twins.action? (twins : engine.Twins twin) {n : Node} (kind : n.nodeType = .action) :
    (engine.action? n = none ∧ twin.action? n = none ∧ twin.refusal n = engine.refusal n) ∨
    ∃ t a a', engine.action? n = some (t, a) ∧ twin.action? n = some (t, a') := by
  unfold Engine.action? refusal
  rw [kind]
  -- the twin knows the same types and validates alike, and nothing else decides here
  cases typed : n.actionType with
  | none => exact .inl ⟨rfl, rfl, rfl⟩
  | some t =>
    have hactions := twins.actions t
    dsimp only
    cases known : engine.catalogue.action? t with
    | none =>
      rw [known, Option.map_none, Option.map_eq_none_iff] at hactions
      rw [hactions]
      exact .inl ⟨rfl, rfl, rfl⟩
    | some a =>
      rw [known, Option.map_some, Option.map_eq_some_iff] at hactions
      obtain ⟨a', known', hvalidate⟩ := hactions
      rw [known']
      dsimp only
      rw [hvalidate]
      by_cases valid : a.validate n.config = []
      · exact .inr ⟨t, a, a', if_pos valid, if_pos valid⟩
      · exact .inl ⟨if_neg valid, if_neg valid, rfl⟩

/-! ### What is asked of related runs -/

/-- Runs of two engines that are related by `R` remain so under reports and calls, as long as their
deeds are related by `P`.  Of deeds `P` need only be known as a whole: `first` and `rest` split it.
-/
structure Lockstep (engine twin : Engine) (P : List Deed → List Deed → Prop)
    (R : Run → Run → Prop) : Prop where
  twins : engine.Twins twin
  context : ∀ {r r'}, R r r' → r'.execution.context = r.execution.context
  report : ∀ {r r'} (h : Happening), R r r' → R (r.after h) (r'.after h)
  call : ∀ {n t a a' r r'}, R r r' → engine.catalogue.action? t = some a →
    twin.catalogue.action? t = some a' → P (deedsOfCall n t a r) (deedsOfCall n t a' r') →
    Together R (called n t a r) (called n t a' r') ∧
      (deedsOfCall n t a r).map Deed.outline = (deedsOfCall n t a' r').map Deed.outline
  first : ∀ {ds more ds' more'}, P (ds ++ more) (ds' ++ more') → P ds ds'
  rest : ∀ {ds more ds' more'}, P (ds ++ more) (ds' ++ more') →
    ds.map Deed.outline = ds'.map Deed.outline → P more more'

namespace Lockstep

/-! ### One node -/

theorem act (lock : Lockstep engine twin P R) {n : Node} (related : R r r')
    (deeds : P (engine.deedsAt n r) (twin.deedsAt n r')) :
    Together R (engine.act n r) (twin.act n r') ∧
      (engine.deedsAt n r).map Deed.outline = (twin.deedsAt n r').map Deed.outline := by
  cases kind : n.nodeType with
  | trigger =>
    obtain ⟨hact, hdeeds⟩ := act_of_trigger engine kind r
    obtain ⟨hact', hdeeds'⟩ := act_of_trigger twin kind r'
    rw [hact, hact', hdeeds, hdeeds']
    exact ⟨.ok related, rfl⟩
  | condition =>
    obtain ⟨hact, hdeeds⟩ := act_of_condition engine kind r
    obtain ⟨hact', hdeeds'⟩ := act_of_condition twin kind r'
    rw [hact, hact', hdeeds, hdeeds', lock.context related]
    exact ⟨.ok (lock.report _ related), rfl⟩
  | action =>
    rw [deedsAt_of_action kind, deedsAt_of_action kind] at deeds ⊢
    rw [act_of_action kind, act_of_action kind]
    rcases lock.twins.action? kind with ⟨hnone, hnone', hrefusal⟩ | ⟨t, a, a', hsome, hsome'⟩
    · rw [hnone, hnone', hrefusal]
      exact ⟨.error related, rfl⟩
    · rw [hsome, hsome'] at deeds ⊢
      exact lock.call related (known_of_action? hsome) (known_of_action? hsome') deeds

/-! ### Connections -/

/-- Runs that are related follow connections in the same way: `Together R`, with deeds of the same
outline.  The recursion is that of the engine; what is known of all deeds is split into what is
known of each part. -/
theorem follow (lock : Lockstep engine twin P R) (g : Graph) (path : List NodeId) (source : NodeId)
    (branch : Option ConditionType) (edges : List Connection) {r r' : Run} (related : R r r')
    (deeds : P (engine.deedsFollowing g path source branch edges r)
      (twin.deedsFollowing g path source branch edges r')) :
    Together R (engine.follow g path source branch edges r)
        (twin.follow g path source branch edges r') ∧
      (engine.deedsFollowing g path source branch edges r).map Deed.outline =
        (twin.deedsFollowing g path source branch edges r').map Deed.outline := by
  match edges with
  | [] =>
    rw [follow_nil, follow_nil, deedsFollowing_nil, deedsFollowing_nil]
    exact ⟨.ok related, rfl⟩
  | c :: cs =>
    -- a report is known to both, and what is left after it are the other deeds
    have hreport (h : Happening) {ds ds' : List Deed}
        (hds : P ([r.reporting h] ++ ds) ([r'.reporting h] ++ ds')) : P ds ds' :=
      lock.rest hds rfl
    cases taken : takes branch c with
    | false =>
      obtain ⟨hfollow, hdeeds⟩ := follow_of_untaken engine g path source cs r taken
      obtain ⟨hfollow', hdeeds'⟩ := follow_of_untaken twin g path source cs r' taken
      rw [hdeeds, hdeeds'] at deeds
      obtain ⟨hends, hrest⟩ := lock.follow g path source branch cs
        (lock.report (.edgeSkipped source c.target) related) (hreport _ deeds)
      rw [hfollow, hfollow', hdeeds, hdeeds', List.map_cons, List.map_cons, hrest]
      exact ⟨hends, rfl⟩
    | true =>
      cases admitted : engine.entry g path c.target with
      | error e =>
        have admitted' := (lock.twins.entry g path c.target).trans admitted
        obtain ⟨hfollow, hdeeds⟩ := follow_of_refused source cs r taken admitted
        obtain ⟨hfollow', hdeeds'⟩ := follow_of_refused source cs r' taken admitted'
        rw [hfollow, hfollow', hdeeds, hdeeds']
        exact ⟨.error related, rfl⟩
      | ok n =>
        have admitted' := (lock.twins.entry g path c.target).trans admitted
        have hentered := lock.report
          (.nodeEntered c.target (Vocabulary.text n.nodeType) path.length) related
        obtain ⟨-, hall⟩ := follow_of_admitted source cs r taken admitted
        obtain ⟨-, hall'⟩ := follow_of_admitted source cs r' taken admitted'
        rw [hall, hall'] at deeds
        have hafter := hreport _ deeds
        obtain ⟨hacts, hhere⟩ := lock.act hentered (lock.first hafter)
        have hbelow := lock.rest hafter hhere
        generalize acted : engine.act n
          (r.after (.nodeEntered c.target (Vocabulary.text n.nodeType) path.length)) = result
          at hacts hbelow
        generalize acted' : twin.act n
          (r'.after (.nodeEntered c.target (Vocabulary.text n.nodeType) path.length)) = result'
          at hacts hbelow
        cases hacts with
        | error hends =>
          obtain ⟨hfollow, hdeeds⟩ := follow_of_failed source cs taken admitted acted
          obtain ⟨hfollow', hdeeds'⟩ := follow_of_failed source cs taken admitted' acted'
          rw [hfollow, hfollow', hdeeds, hdeeds', List.map_cons, List.map_cons, hhere]
          exact ⟨.error hends, rfl⟩
        | @ok below r₁ r₁' hacted =>
          dsimp only at hbelow
          obtain ⟨hdown, hdeep⟩ := lock.follow g (c.target :: path) c.target below
            (g.outgoing c.target) hacted (lock.first hbelow)
          have hbeside := lock.rest hbelow hdeep
          generalize passed : engine.follow g (c.target :: path) c.target below
            (g.outgoing c.target) r₁ = result at hdown hbeside
          generalize passed' : twin.follow g (c.target :: path) c.target below
            (g.outgoing c.target) r₁' = result' at hdown hbeside
          cases hdown with
          | error hends =>
            obtain ⟨hfollow, hdeeds⟩ := follow_of_stopped source cs taken admitted acted passed
            obtain ⟨hfollow', hdeeds'⟩ := follow_of_stopped source cs taken admitted' acted' passed'
            rw [hfollow, hfollow', hdeeds, hdeeds', List.map_cons, List.map_cons, List.map_append,
              List.map_append, hhere, hdeep]
            exact ⟨.error hends, rfl⟩
          | ok hpassed =>
            obtain ⟨hfollow, hdeeds⟩ := follow_of_passed source cs taken admitted acted passed
            obtain ⟨hfollow', hdeeds'⟩ := follow_of_passed source cs taken admitted' acted' passed'
            obtain ⟨hends, hrest⟩ := lock.follow g path source branch cs hpassed hbeside
            rw [hfollow, hfollow', hdeeds, hdeeds', List.map_cons, List.map_cons, List.map_append,
              List.map_append, List.map_append, List.map_append, hhere, hdeep, hrest]
            exact ⟨hends, rfl⟩
termination_by (g.remaining path, edges.length)
decreasing_by
  · exact Prod.Lex.right _ (by simp)
  · obtain ⟨hnew, -, hnode⟩ := entry_eq_ok_iff.mp admitted
    exact Prod.Lex.left _ _ (Graph.remaining_cons_lt (Graph.mem_ids_of_node? hnode) hnew)
  · exact Prod.Lex.right _ (by simp)

/-! ### Whole runs -/

/-- Runs that are related, with the same payload and graphs loaded alike, end `Together R`, with
deeds of the same outline. -/
theorem traverse (lock : Lockstep engine twin P R) {workflow : WorkflowId} (related : R r r')
    (given : r'.execution.triggerData = r.execution.triggerData)
    (loaded : Together (fun s s' => R (r.withStorage s) (r'.withStorage s'))
      (Graph.load workflow r.world.storage) (Graph.load workflow r'.world.storage))
    (deeds : P (engine.deedsTraversing workflow r) (twin.deedsTraversing workflow r')) :
    Together R (engine.traverse workflow r) (twin.traverse workflow r') ∧
      (engine.deedsTraversing workflow r).map Deed.outline =
        (twin.deedsTraversing workflow r').map Deed.outline := by
  unfold deedsTraversing at deeds ⊢
  unfold Engine.traverse
  rw [bind_of_ok (get_apply r), bind_of_ok (get_apply r')]
  rw [given] at deeds ⊢
  -- both runs pass the same gates: the payload, the graph that is loaded, its start
  cases free : Fields.has actionsKey r.execution.triggerData with
  | true => exact ⟨.error related, rfl⟩
  | false =>
    rw [free] at deeds
    simp only [Bool.false_eq_true, ↓reduceIte] at deeds ⊢
    generalize hload : Graph.load workflow r.world.storage = result at loaded deeds ⊢
    generalize hload' : Graph.load workflow r'.world.storage = result' at loaded deeds ⊢
    cases loaded with
    | error hends =>
      rw [bind_of_error (access_of_error hload), bind_of_error (access_of_error hload')]
      exact ⟨.error hends, rfl⟩
    | @ok g s s' hstored =>
      rw [bind_of_ok (access_of_ok hload), bind_of_ok (access_of_ok hload')]
      by_cases idle : g.startEdges = []
      · rw [if_pos (by rw [idle]; rfl), if_pos (by rw [idle]; rfl)]
        dsimp only
        rw [idle, deedsFollowing_nil, deedsFollowing_nil]
        exact ⟨.error hstored, rfl⟩
      · rw [if_neg (by simpa using idle), if_neg (by simpa using idle),
          forM_visit_eq_follow engine g Uuid.nil, forM_visit_eq_follow twin g Uuid.nil]
        exact lock.follow g [] Uuid.nil none g.startEdges hstored deeds

end Lockstep

end Engine

end TriggerFlow
