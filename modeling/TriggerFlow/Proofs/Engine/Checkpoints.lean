import TriggerFlow.Dispatch
import TriggerFlow.Proofs.Engine.Contexts
import TriggerFlow.Proofs.Engine.Settlement
import TriggerFlow.Proofs.Store.Finality
/-!
# Runs whose row has been closed

While an action is running others may close the row of the run.  The run learns of this when it
writes down the result of the action: the store refuses the row, and the run ends there, however
deep in the graph it has come and whatever connections are left (`closed_run_stops`).

A `Checkpoint` is such a moment.  It is described along the engine's own recursion, with what has
been done by then; every result of an action comes with one (`checkpoint_of_called`).
-/

namespace TriggerFlow

/-- A row whose stored status is terminal is refused, with `conflict` unless an outage is due, and
nothing changes but the outages. -/
theorem Storage.updateExecution_of_terminal {s : Storage} {row e : Execution}
    (hfound : s.tables.getExecution row.id = some e) (hterminal : e.status.isTerminal = true) :
    ∃ err outages, updateExecution row s = .error err { s with outages } ∧
      (s.outages = [] → err = .conflict ("execution " ++ row.id.text ++ " is already "
        ++ Vocabulary.text e.status)) := by
  have hrefused := Tables.updateExecution_of_terminal hfound hterminal
  rw [updateExecution]
  cases hattempt : attempt .updateExecution s with
  | error err s' =>
    obtain ⟨outages, rfl⟩ := (looks_attempt .updateExecution).of_error hattempt
    refine ⟨err, outages, bind_of_error hattempt _, fun calm => ?_⟩
    rw [attempt_of_calm calm] at hattempt
    cases hattempt
  | ok u s' =>
    obtain ⟨outages, rfl⟩ := (looks_attempt .updateExecution).of_ok hattempt
    refine ⟨_, outages, ?_, fun _ => rfl⟩
    rw [bind_of_ok hattempt, change, hrefused]

namespace Engine

variable {engine : Engine} {g : Graph} {n : Node} {v : Json} {q r : Run} {path : List NodeId}
  {source : NodeId} {branch : Option ConditionType} {edges : List Connection} {past : List Deed}
  {workflow : WorkflowId}

/-! ### Results are written down -/

/-- The run `r` follows connections from `source` below the nodes of `path`, and comes to write down
the result `v` of the node `n`; `q` is the run at this moment, and `past` are its deeds until then.
-/
inductive Checkpoint (engine : Engine) (g : Graph) (n : Node) (v : Json) (q : Run) :
    List NodeId → NodeId → Option ConditionType → List Connection → Run → List Deed → Prop
  | skip {path source branch c cs r past} (untaken : takes branch c = false)
      (rest : Checkpoint engine g n v q path source branch cs
        (r.after (.edgeSkipped source c.target)) past) :
      Checkpoint engine g n v q path source branch (c :: cs) r
        (r.reporting (.edgeSkipped source c.target) :: past)
  | here {path source branch c cs r t a s} (taken : takes branch c = true)
      (admitted : engine.entry g path c.target = .ok n) (calls : engine.action? n = some (t, a))
      (ran : a.run n.config r.execution.context r.world.storage = (.done v, s))
      (state : q =
        (r.after (.nodeEntered c.target (Vocabulary.text n.nodeType) path.length)).withStorage s) :
      Checkpoint engine g n v q path source branch (c :: cs) r
        [r.reporting (.nodeEntered c.target (Vocabulary.text n.nodeType) path.length),
          .called n.id r.execution.context (.done v)]
  | under {path source branch c cs r top down r' past} (taken : takes branch c = true)
      (admitted : engine.entry g path c.target = .ok top)
      (acted : engine.act top
        (r.after (.nodeEntered c.target (Vocabulary.text top.nodeType) path.length)) = .ok down r')
      (rest : Checkpoint engine g n v q (c.target :: path) c.target down (g.outgoing c.target) r'
        past) :
      Checkpoint engine g n v q path source branch (c :: cs) r
        (r.reporting (.nodeEntered c.target (Vocabulary.text top.nodeType) path.length) ::
          (engine.deedsAt top
            (r.after (.nodeEntered c.target (Vocabulary.text top.nodeType) path.length)) ++ past))
  | beside {path source branch c cs r top down r' r'' past} (taken : takes branch c = true)
      (admitted : engine.entry g path c.target = .ok top)
      (acted : engine.act top
        (r.after (.nodeEntered c.target (Vocabulary.text top.nodeType) path.length)) = .ok down r')
      (passed : engine.follow g (c.target :: path) c.target down (g.outgoing c.target) r'
        = .ok () r'')
      (rest : Checkpoint engine g n v q path source branch cs r'' past) :
      Checkpoint engine g n v q path source branch (c :: cs) r
        (r.reporting (.nodeEntered c.target (Vocabulary.text top.nodeType) path.length) ::
          (engine.deedsAt top
            (r.after (.nodeEntered c.target (Vocabulary.text top.nodeType) path.length)) ++
          (engine.deedsFollowing g (c.target :: path) c.target down (g.outgoing c.target) r' ++
            past)))

theorem kind_of_action? {t : String} {a : Action} (h : engine.action? n = some (t, a)) :
    n.nodeType = .action := by
  unfold action? at h
  split at h
  · next kind typed => exact kind
  · cases h

/-- The last deed before a checkpoint is the call that has given the result, on the context of `q`.
-/
theorem Checkpoint.calls (h : Checkpoint engine g n v q path source branch edges r past) :
    ∃ before, past = before ++ [.called n.id q.execution.context (.done v)] := by
  induction h with
  | skip untaken rest ih =>
    obtain ⟨before, rfl⟩ := ih
    exact ⟨_, (List.cons_append ..).symm⟩
  | here taken admitted calls ran state =>
    rw [state]
    exact ⟨[_], rfl⟩
  | under taken admitted acted rest ih =>
    obtain ⟨before, rfl⟩ := ih
    rw [← List.append_assoc, ← List.cons_append]
    exact ⟨_, rfl⟩
  | beside taken admitted acted passed rest ih =>
    obtain ⟨before, rfl⟩ := ih
    rw [← List.append_assoc, ← List.append_assoc, ← List.cons_append]
    exact ⟨_, rfl⟩

/-- At a checkpoint the execution of `q` is that of `r` up to its context. -/
theorem Checkpoint.execution_eq (h : Checkpoint engine g n v q path source branch edges r past) :
    q.execution = { r.execution with context := q.execution.context } := by
  have hacted {top : Node} {entered r' : Run} {down : Option ConditionType}
      (acted : engine.act top entered = .ok down r') :
      r'.execution = { entered.execution with context := r'.execution.context } := by
    have hsteps := (steps_act engine top entered).execution_eq
    rwa [acted] at hsteps
  induction h with
  | skip untaken rest ih => exact ih
  | here taken admitted calls ran state => rw [state]; rfl
  | under taken admitted acted rest ih =>
    rw [ih, hacted acted]
    rfl
  | @beside path source branch c cs r top down r' r'' past taken admitted acted passed rest ih =>
    have hpassed := (steps_follow engine g (c.target :: path) c.target down (g.outgoing c.target)
      r').execution_eq
    rw [passed, leftBy_ok] at hpassed
    rw [ih, hpassed, hacted acted]
    rfl

/-! ### The store refuses -/

/-- If the store refuses the row at a checkpoint, `follow` ends there with the error, at any depth,
and the refused write is its last deed. -/
theorem Checkpoint.stops (h : Checkpoint engine g n v q path source branch edges r past)
    {e : StoreError} {s : Storage}
    (refused : Storage.updateExecution (q.execution.recordAction n.id v) q.world.storage
      = .error e s) :
    engine.follow g path source branch edges r
        = .error (.store e) ((q.recording n.id v).withStorage s) ∧
      engine.deedsFollowing g path source branch edges r
        = past ++ [.wrote (q.execution.recordAction n.id v) false] := by
  -- induction on the way to the checkpoint: what the node ends with, all callers end with
  induction h with
  | @skip path source branch c cs r past untaken rest ih =>
    obtain ⟨hends, hdeeds⟩ := ih
    obtain ⟨hfollow, hall⟩ := follow_of_untaken engine g path source cs r untaken
    rw [hfollow, hall, hends, hdeeds]
    exact ⟨rfl, rfl⟩
  | @here path source branch c cs r t a s₀ taken admitted calls ran state =>
    subst state
    have kind := kind_of_action? calls
    have hran : a.run n.config
        (r.after (.nodeEntered c.target (Vocabulary.text n.nodeType) path.length)).execution.context
        (r.after (.nodeEntered c.target (Vocabulary.text n.nodeType) path.length)).world.storage
          = (.done v, s₀) := ran
    have hrefused : Storage.updateExecution
        ((r.after (.nodeEntered c.target (Vocabulary.text n.nodeType) path.length)).execution
          |>.recordAction n.id v) s₀ = .error e s := refused
    -- the action is done, but its result is not accepted
    have failed : engine.act n
        (r.after (.nodeEntered c.target (Vocabulary.text n.nodeType) path.length)) =
          .error (.store e) (((r.after (.nodeEntered c.target (Vocabulary.text n.nodeType)
            path.length)).recording n.id v).withStorage s) := by
      rw [act_of_action kind, calls]
      dsimp only
      rw [called, hran]
      dsimp only
      rw [hrefused]
    obtain ⟨hfollow, hall⟩ := follow_of_failed source cs taken admitted failed
    refine ⟨hfollow, ?_⟩
    rw [hall, deedsAt_of_action kind, calls]
    dsimp only
    rw [deedsOfCall, hran]
    dsimp only
    rw [hrefused]
    rfl
  | @under path source branch c cs r top down r' past taken admitted acted rest ih =>
    obtain ⟨hends, hdeeds⟩ := ih
    obtain ⟨hfollow, hall⟩ := follow_of_stopped source cs taken admitted acted
      hends
    rw [hfollow, hall, hdeeds, List.cons_append, List.append_assoc]
    exact ⟨rfl, rfl⟩
  | @beside path source branch c cs r top down r' r'' past taken admitted acted passed rest ih =>
    obtain ⟨hends, hdeeds⟩ := ih
    obtain ⟨hfollow, hall⟩ := follow_of_passed source cs taken admitted acted
      passed
    rw [hfollow, hall, hends, hdeeds, List.cons_append, List.append_assoc, List.append_assoc]
    exact ⟨rfl, rfl⟩

/-! ### Every result comes with a checkpoint -/

/-- A member of `as ++ bs` stands in `as` or in `bs`. -/
theorem split_append {α : Type} {as bs before after : List α} {x : α}
    (h : as ++ bs = before ++ x :: after) :
    (∃ after', as = before ++ x :: after') ∨
    ∃ before', before = as ++ before' ∧ bs = before' ++ x :: after := by
  rcases List.append_eq_append_iff.mp h with ⟨before', rfl, hbs⟩ | ⟨rest, has, hrest⟩
  · exact .inr ⟨before', rfl, hbs⟩
  · cases rest with
    | nil =>
      rw [List.append_nil] at has
      rw [List.nil_append] at hrest
      exact .inr ⟨[], by rw [has, List.append_nil], hrest.symm⟩
    | cons y rest =>
      obtain ⟨rfl, -⟩ := List.cons.inj hrest
      exact .inl ⟨rest, has⟩

/-- A member of `a :: as` that is not `a` stands in `as`. -/
theorem split_cons {α : Type} {a x : α} {as before after : List α} (hne : a ≠ x)
    (h : a :: as = before ++ x :: after) :
    ∃ before', before = a :: before' ∧ as = before' ++ x :: after := by
  cases before with
  | nil => exact absurd (List.cons.inj h).1 hne
  | cons b before =>
    obtain ⟨rfl, has⟩ := List.cons.inj h
    exact ⟨before, rfl, has⟩

theorem deedsOfCall_eq (n : Node) (t : String) (a : Action) (r : Run) :
    ∃ rest, deedsOfCall n t a r =
        .called n.id r.execution.context
          (a.run n.config r.execution.context r.world.storage).1 :: rest ∧
      ∀ node context verdict, .called node context verdict ∉ rest := by
  unfold deedsOfCall
  rcases a.run n.config r.execution.context r.world.storage with ⟨verdict, s⟩
  cases verdict with
  | failed e => exact ⟨[], rfl, by simp⟩
  | crashed message => exact ⟨[], rfl, by simp⟩
  | done v =>
    refine ⟨_, rfl, ?_⟩
    split <;> simp

/-- The only call in `deedsAt` is that of the node's action on the context of the run, and it comes
first. -/
theorem called_of_deedsAt {before after : List Deed} {node : NodeId} {context : Context}
    (h : engine.deedsAt n r = before ++ .called node context (.done v) :: after) :
    before = [] ∧ node = n.id ∧ context = r.execution.context ∧
      ∃ t a s, engine.action? n = some (t, a) ∧
        a.run n.config r.execution.context r.world.storage = (.done v, s) := by
  have hmem : Deed.called node context (.done v) ∈ engine.deedsAt n r := by
    rw [h]
    exact List.mem_append_right _ (List.mem_cons_self ..)
  cases kind : n.nodeType with
  | trigger =>
    rw [(act_of_trigger engine kind r).2] at hmem
    cases hmem
  | condition =>
    rw [(act_of_condition engine kind r).2] at hmem
    cases List.mem_singleton.mp hmem
  | action =>
    rw [deedsAt_of_action kind] at h hmem
    cases hcall : engine.action? n with
    | none =>
      rw [hcall] at hmem
      cases hmem
    | some entry =>
      obtain ⟨t, a⟩ := entry
      rw [hcall] at h
      -- the call is the first deed of its node, and there is no other
      obtain ⟨rest, hdeeds, hrest⟩ := deedsOfCall_eq n t a r
      dsimp only at h
      rw [hdeeds] at h
      cases before with
      | nil =>
        obtain ⟨hfirst, -⟩ := List.cons.inj h
        obtain ⟨hnode, hcontext, hverdict⟩ := Deed.called.inj hfirst
        exact ⟨rfl, hnode.symm, hcontext.symm, t, a, _, rfl, Prod.ext hverdict rfl⟩
      | cons b before =>
        obtain ⟨-, htail⟩ := List.cons.inj h
        refine absurd ?_ (hrest node context (.done v))
        rw [htail]
        exact List.mem_append_right _ (List.mem_cons_self ..)

/-- Every call that has given a result leads to a `Checkpoint`, with the deeds before it.  The
recursion is that of the engine. -/
theorem checkpoint_of_called (engine : Engine) (g : Graph) (path : List NodeId) (source : NodeId)
    (branch : Option ConditionType) (edges : List Connection) (r : Run) {before after : List Deed}
    {node : NodeId} {context : Context} {v : Json}
    (h : engine.deedsFollowing g path source branch edges r =
      before ++ .called node context (.done v) :: after) :
    ∃ n q, n.id = node ∧ q.execution.context = context ∧
      Checkpoint engine g n v q path source branch edges r
        (before ++ [.called node context (.done v)]) := by
  -- the call is looked for where `deedsFollowing` recurs: at the node, below it, or beside it
  match edges with
  | [] =>
    rw [deedsFollowing_nil] at h
    exact absurd h.symm (by simp)
  | c :: cs =>
    cases taken : takes branch c with
    | false =>
      obtain ⟨-, hall⟩ := follow_of_untaken engine g path source cs r taken
      rw [hall] at h
      obtain ⟨before', rfl, hrest⟩ := split_cons (by simp [Run.reporting]) h
      obtain ⟨n, q, hnode, hcontext, hpoint⟩ := checkpoint_of_called engine g path source branch cs
        _ hrest
      exact ⟨n, q, hnode, hcontext, .skip taken hpoint⟩
    | true =>
      cases admitted : engine.entry g path c.target with
      | error e =>
        obtain ⟨-, hall⟩ := follow_of_refused source cs r taken admitted
        rw [hall] at h
        exact absurd h.symm (by simp)
      | ok top =>
        obtain ⟨-, hall⟩ := follow_of_admitted source cs r taken admitted
        rw [hall] at h
        obtain ⟨before', rfl, hentered⟩ := split_cons (by simp [Run.reporting]) h
        rcases split_append hentered with ⟨after', hhere⟩ | ⟨before'', rfl, hafter⟩
        · -- the call is that of the node itself
          obtain ⟨rfl, rfl, rfl, t, a, s, hcalls, hran⟩ := called_of_deedsAt hhere
          exact ⟨top, (r.after (.nodeEntered c.target (Vocabulary.text top.nodeType)
            path.length)).withStorage s, rfl, rfl, .here taken admitted hcalls hran rfl⟩
        · cases acted : engine.act top
              (r.after (.nodeEntered c.target (Vocabulary.text top.nodeType) path.length)) with
          | error e r' =>
            rw [acted] at hafter
            exact absurd hafter.symm (by simp)
          | ok down r' =>
            rw [acted] at hafter
            rcases split_append hafter with ⟨after', hdown⟩ | ⟨before₃, rfl, hlast⟩
            · obtain ⟨n, q, hnode, hcontext, hpoint⟩ := checkpoint_of_called engine g
                (c.target :: path) c.target down (g.outgoing c.target) r' hdown
              refine ⟨n, q, hnode, hcontext, ?_⟩
              rw [List.cons_append, List.append_assoc]
              exact .under taken admitted acted hpoint
            · cases passed : engine.follow g (c.target :: path) c.target down (g.outgoing c.target)
                  r' with
              | error e r'' =>
                rw [passed] at hlast
                exact absurd hlast.symm (by simp)
              | ok u r'' =>
                rw [passed] at hlast
                obtain ⟨n, q, hnode, hcontext, hpoint⟩ := checkpoint_of_called engine g path source
                  branch cs r'' hlast
                refine ⟨n, q, hnode, hcontext, ?_⟩
                rw [List.cons_append, List.append_assoc, List.append_assoc]
                exact .beside taken admitted acted passed hpoint
termination_by (g.remaining path, edges.length)
decreasing_by
  · exact Prod.Lex.right _ (by simp)
  · obtain ⟨hnew, -, hnode⟩ := entry_eq_ok_iff.mp admitted
    exact Prod.Lex.left _ _ (Graph.remaining_cons_lt (Graph.mem_ids_of_node? hnode) hnew)
  · exact Prod.Lex.right _ (by simp)

/-! ### Whole runs -/

/-- The traversal of a workflow that begins with the run `r` comes to a `Checkpoint` on the
connections from the trigger. -/
def AtCheckpoint (engine : Engine) (workflow : WorkflowId) (n : Node) (v : Json) (q r : Run)
    (past : List Deed) : Prop :=
  Fields.has actionsKey r.execution.triggerData = false ∧
    ∃ g s, Graph.load workflow r.world.storage = .ok g s ∧
      Checkpoint engine g n v q [] Uuid.nil none g.startEdges (r.withStorage s) past

theorem atCheckpoint_of_called {before after : List Deed} {node : NodeId} {context : Context}
    (h : engine.deedsTraversing workflow r = before ++ .called node context (.done v) :: after) :
    ∃ n q, n.id = node ∧ q.execution.context = context ∧
      engine.AtCheckpoint workflow n v q r (before ++ [.called node context (.done v)]) := by
  unfold deedsTraversing at h
  split at h
  · exact absurd h.symm (by simp)
  · next free =>
    split at h
    · exact absurd h.symm (by simp)
    · next g s loaded =>
      obtain ⟨n, q, hnode, hcontext, hpoint⟩ := checkpoint_of_called engine g [] Uuid.nil none
        g.startEdges (r.withStorage s) h
      exact ⟨n, q, hnode, hcontext, by simpa using free, g, s, loaded, hpoint⟩

theorem AtCheckpoint.stops (h : engine.AtCheckpoint workflow n v q r past) {e : StoreError}
    {s : Storage}
    (refused : Storage.updateExecution (q.execution.recordAction n.id v) q.world.storage
      = .error e s) :
    engine.traverse workflow r = .error (.store e) ((q.recording n.id v).withStorage s) ∧
      engine.deedsTraversing workflow r
        = past ++ [.wrote (q.execution.recordAction n.id v) false] := by
  obtain ⟨free, g, s₀, loaded, hpoint⟩ := h
  obtain ⟨hends, hdeeds⟩ := hpoint.stops refused
  have started : g.startEdges ≠ [] := by
    intro idle
    rw [idle] at hpoint
    cases hpoint
  constructor
  · unfold traverse
    rw [bind_of_ok (get_apply r), free]
    simp only [Bool.false_eq_true, ↓reduceIte]
    rw [bind_of_ok (access_of_ok loaded), if_neg (by simpa using started),
      forM_visit_eq_follow engine g Uuid.nil]
    exact hends
  · unfold deedsTraversing
    rw [free, if_neg Bool.false_ne_true, loaded]
    exact hdeeds

theorem AtCheckpoint.calls (h : engine.AtCheckpoint workflow n v q r past) :
    ∃ before, past = before ++ [.called n.id q.execution.context (.done v)] := by
  obtain ⟨-, g, s, -, hpoint⟩ := h
  exact hpoint.calls

theorem AtCheckpoint.id_eq (h : engine.AtCheckpoint workflow n v q r past) :
    q.execution.id = r.execution.id := by
  obtain ⟨-, g, s, -, hpoint⟩ := h
  rw [hpoint.execution_eq]
  rfl

/-- Every call that has given a result is `AtCheckpoint`.  If the stored row is terminal by then,
the deeds of the run end with the refused write, the report `executionFailed` and the refused
`closing` row: nothing is entered or called any more, and the tables stay as they are. -/
theorem closed_run_stops {workflow : Workflow} {triggerType : String} {payload : Fields}
    {w w₀ : World} (begun : Run.begin workflow triggerType payload w = .ok r w₀) :
    (∀ before node context v after,
      engine.deeds workflow triggerType payload w =
        before ++ .called node context (.done v) :: after →
      ∃ n q past, n.id = node ∧ q.execution.context = context ∧
        before ++ [.called node context (.done v)] =
          [.inserted r.execution, r.reporting (.executionStarted workflow.id triggerType)] ++ past ∧
        engine.AtCheckpoint workflow.id n v q r past) ∧
    ∀ n v q past row, engine.AtCheckpoint workflow.id n v q r past →
      q.world.storage.tables.getExecution r.execution.id = some row →
      row.status.isTerminal = true →
      ∃ e ms w' last, engine.execute workflow triggerType payload w = .ok r.execution.id w' ∧
        (∃ before, past = before ++ [.called n.id q.execution.context (.done v)]) ∧
        engine.deeds workflow triggerType payload w =
          [.inserted r.execution, r.reporting (.executionStarted workflow.id triggerType)] ++
            past ++ [.wrote (q.execution.recordAction n.id v) false,
              .reported (.executionFailed (StoreError.message e) ms) (some row),
              .wrote last false] ∧
        w'.events = q.world.events ++
          [⟨r.execution.id, .executionFailed e.message ms, q.world.now⟩] ∧
        (q.world.storage.outages = [] → e = .conflict ("execution " ++ r.execution.id.text
          ++ " is already " ++ Vocabulary.text row.status)) ∧
        w'.storage.tables = q.world.storage.tables ∧
        w'.storage.tables.getExecution r.execution.id = some row := by
  constructor
  · intro before node context v after hsplit
    rw [deeds_of_begun begun, List.append_assoc, List.cons_append, List.singleton_append] at hsplit
    obtain ⟨before₁, rfl, hstarted⟩ := split_cons (by simp) hsplit
    obtain ⟨before₂, rfl, hbegun⟩ := split_cons (by simp [Run.reporting]) hstarted
    rcases split_append hbegun with ⟨after', hinner⟩ | ⟨before₃, -, hlast⟩
    · obtain ⟨n, q, hnode, hcontext, hpoint⟩ := atCheckpoint_of_called hinner
      exact ⟨n, q, _, hnode, hcontext, rfl, hpoint⟩
    · -- nothing is called once the run has ended
      have hmem : Deed.called node context (.done v) ∈ before₃ ++ .called node context (.done v)
          :: after := List.mem_append_right _ (List.mem_cons_self ..)
      rw [← hlast] at hmem
      simp [Run.reporting] at hmem
  · intro n v q past row hpoint hfound hterminal
    have hid := hpoint.id_eq
    rw [← hid] at hfound
    have hrecorded : q.world.storage.tables.getExecution (q.execution.recordAction n.id v).id
        = some row := hfound
    obtain ⟨e, outages, hrefused, hconflict⟩ :=
      Storage.updateExecution_of_terminal hrecorded hterminal
    obtain ⟨hends, hdeeds⟩ := hpoint.stops hrefused
    -- the row is refused again when the run is concluded
    let last := (q.recording n.id v).withStorage { q.world.storage with outages }
    have hclosed : last.world.storage.tables.getExecution (closing (.error (.store e) last)).id
        = some row := hfound
    obtain ⟨e', outages', hrefused', -⟩ := Storage.updateExecution_of_terminal hclosed hterminal
    have hunkept : last.world.storage.accepts (closing (.error (.store e) last)) = false :=
      Storage.accepts_eq_false_iff.mpr ⟨e', _, hrefused'⟩
    have htables : (conclude w.now (.error (.store e) last)).storage.tables =
        q.world.storage.tables := by
      rw [storage_conclude, leftBy_error, hrefused']
      rfl
    have hreport : last.reporting (outcome w.now (.error (.store e) last)) =
        .reported (.executionFailed e.message (w.now.millisSince q.world.now)) (some row) :=
      congrArg (Deed.reported _) hfound
    refine ⟨e, w.now.millisSince q.world.now, conclude w.now (.error (.store e) last),
      closing (.error (.store e) last), ?_, hpoint.calls, ?_, ?_, ?_, htables, ?_⟩
    · rw [execute_apply, begun]
      dsimp only
      rw [hends]
    · rw [deeds_of_begun begun, hdeeds, hends, leftBy_error, hreport, hunkept, List.append_assoc,
        List.append_assoc, List.append_assoc]
      rfl
    · rw [events_conclude, ← hid]
      rfl
    · rw [← hid]
      exact hconflict
    · rw [htables, ← hid, hfound]

/-- An engine whose only action does `reapStale`, so that it closes the rows of all runs of the
workflow, its own included. -/
def reapingEngine : Engine :=
  ⟨⟨[], [{ noteAction with
    run := fun _ _ s => (.done (.string "noted"), leftBy (reapStale noteWorkflow.id 0 s)) }]⟩, 64⟩

/-- A run that has begun in `noteStorage`. -/
def begunRun : Run :=
  ⟨leftBy (Run.begin noteWorkflow "event.created" [] (World.ofStorage noteStorage)),
    Execution.start (noteStorage.ids.next .execution).1 noteWorkflow.id "event.created" []
      noteStorage.clock⟩

/-- A run of `reapingEngine` fails where its action has closed its row, and the row remains as it
has been closed. -/
theorem reapingEngine_stops :
    ∃ w' ms message,
      reapingEngine.execute noteWorkflow "event.created" [] (World.ofStorage noteStorage)
        = .ok begunRun.execution.id w' ∧
      w'.events.getLast? = some ⟨begunRun.execution.id, .executionFailed message ms, default⟩ ∧
      w'.storage.tables.getExecution begunRun.execution.id
        = some (begunRun.execution.fail abandoned default) := by
  have begun : Run.begin noteWorkflow "event.created" [] (World.ofStorage noteStorage) =
      .ok begunRun begunRun.world := rfl
  let reaped := leftBy (reapStale noteWorkflow.id 0 begunRun.world.storage)
  let entered := begunRun.after (.nodeEntered noteNode.id (Vocabulary.text noteNode.nodeType) 0)
  have hloaded : Graph.load noteWorkflow.id begunRun.world.storage =
      .ok (Graph.ofTables noteStorage.tables noteWorkflow.id) begunRun.world.storage :=
    Graph.load_of_calm rfl noteWorkflow.id
  have hpoint : reapingEngine.AtCheckpoint noteWorkflow.id noteNode (.string "noted")
      (entered.withStorage reaped) begunRun
      [begunRun.reporting (.nodeEntered noteNode.id (Vocabulary.text noteNode.nodeType) 0),
        .called noteNode.id [] (.done (.string "noted"))] := by
    refine ⟨rfl, _, _, hloaded, ?_⟩
    rw [noteStorage_startEdges]
    exact .here rfl rfl rfl rfl rfl
  have hclosed : reaped.tables.getExecution begunRun.execution.id =
      some (begunRun.execution.fail abandoned default) := rfl
  obtain ⟨e, ms, w', last, hexecute, -, -, hevents, -, -, hrow⟩ :=
    (closed_run_stops begun).2 _ _ _ _ _ hpoint hclosed rfl
  refine ⟨w', ms, e.message, hexecute, ?_, hrow⟩
  rw [hevents, List.getLast?_concat]
  rfl

end Engine

end TriggerFlow
