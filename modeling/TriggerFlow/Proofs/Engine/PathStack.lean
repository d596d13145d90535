import TriggerFlow.Proofs.Engine.Order
import TriggerFlow.Proofs.Graph.Paths
/-!
# The path of a run

`Engine.visit` is given the path below which it enters a node.  Here the path is kept by the run
itself (`Trail`), which puts a node on it on the way down and takes it off again on the way up, as a
machine would do it.  `visitOnStack` is defined by `partial_fixpoint`, without a bound and without
an argument that gets smaller.  It ends nevertheless, does what the engine does, and leaves the path
as it was (`visitOnStack_eq`); for below every path on which it enters a node there are fewer live
nodes left.
-/

namespace TriggerFlow.Engine

/-- A run together with the `path` it is on, the outermost node first, and the paths of all `visits`
so far. -/
structure Trail where
  run : Run
  path : List NodeId
  visits : List (List NodeId)

namespace Trail

def visited (t : Trail) : Trail := { t with visits := t.visits ++ [t.path] }

/-- Enters the node `n` and puts it at the end of `path`; the reported depth is the length of the
path before that. -/
def push (t : Trail) (n : Node) (id : NodeId) : Trail :=
  { t with
    run := t.run.after (.nodeEntered id (Vocabulary.text n.nodeType) t.path.length)
    path := t.path ++ [id] }

def pop (t : Trail) : Trail := { t with path := t.path.dropLast }

end Trail

abbrev TrailEnding := EStateM.Result ExecutionError Trail Unit

def mapState {σ τ : Type} (f : σ → τ) :
    EStateM.Result ExecutionError σ Unit → EStateM.Result ExecutionError τ Unit
  | .ok () s => .ok () (f s)
  | .error e s => .error e (f s)

mutual

/-- Enters a node below the path of the trail, acts, follows what leaves it, and takes it off again;
`none` would mean that this does not end. -/
def visitOnStack (engine : Engine) (g : Graph) (id : NodeId) (t : Trail) : Option TrailEnding :=
  let t := t.visited
  match engine.entry g t.path id with
  | .error e => some (.error e t)
  | .ok n =>
    let t := t.push n id
    match engine.act n t.run with
    | .error e run => some (.error e { t with run }.pop)
    | .ok branch run => do
      let ending ← engine |>.followOnStack g id branch (g.outgoing id) { t with run }
      return mapState Trail.pop ending
partial_fixpoint

/-- Follows connections that leave the node `source`, one after the other. -/
def followOnStack (engine : Engine) (g : Graph) (source : NodeId) (branch : Option ConditionType)
    (edges : List Connection) (t : Trail) : Option TrailEnding :=
  match edges with
  | [] => some (.ok () t)
  | c :: cs =>
    if takes branch c then do
      match ← engine |>.visitOnStack g c.target t with
      | .ok () t => engine |>.followOnStack g source branch cs t
      | .error e t => return .error e t
    else
      engine |>.followOnStack g source branch cs
        { t with run := t.run.after (.edgeSkipped source c.target) }
partial_fixpoint

end

def traverseOnStack (engine : Engine) (workflow : WorkflowId) (r : Run) : Option TrailEnding :=
  let t : Trail := ⟨r, [], []⟩
  if Fields.has actionsKey r.execution.triggerData then
    some (.error (.reservedContextKey actionsKey) t)
  else
    match Run.access (Graph.load workflow) r with
    | .error e run => some (.error e { t with run })
    | .ok g run =>
      if g.startEdges.isEmpty then some (.error .noStartNode { t with run })
      else followOnStack engine g Uuid.nil none g.startEdges { t with run }

/-! ### One visit -/

variable {engine : Engine} {g : Graph} {path : List NodeId} {id : NodeId} {r r' : Run}
  {visits : List (List NodeId)}

theorem entry_reverse (engine : Engine) (g : Graph) (path : List NodeId) (id : NodeId) :
    engine.entry g path.reverse id = engine.entry g path id := by
  simp only [entry, List.mem_reverse, List.length_reverse]

theorem visitOnStack_of_refused {e : ExecutionError} (h : engine.entry g path id = .error e) :
    visitOnStack engine g id ⟨r, path.reverse, visits⟩
      = some (.error e ⟨r, path.reverse, visits ++ [path.reverse]⟩) := by
  rw [visitOnStack]
  simp only [Trail.visited, entry_reverse, h]

theorem visitOnStack_of_failed {n : Node} {e : ExecutionError} (h : engine.entry g path id = .ok n)
    (hact : engine.act n (r.after (.nodeEntered id (Vocabulary.text n.nodeType) path.length))
      = .error e r') :
    visitOnStack engine g id ⟨r, path.reverse, visits⟩
      = some (.error e ⟨r', path.reverse, visits ++ [path.reverse]⟩) := by
  rw [visitOnStack]
  simp only [Trail.visited, Trail.push, Trail.pop, entry_reverse, h, List.length_reverse, hact,
    List.dropLast_concat]

theorem visitOnStack_of_acted {n : Node} {below : Option ConditionType}
    (h : engine.entry g path id = .ok n)
    (hact : engine.act n (r.after (.nodeEntered id (Vocabulary.text n.nodeType) path.length))
      = .ok below r') :
    visitOnStack engine g id ⟨r, path.reverse, visits⟩
      = (followOnStack engine g id below (g.outgoing id)
          ⟨r', (id :: path).reverse, visits ++ [path.reverse]⟩).map (mapState Trail.pop) := by
  rw [visitOnStack]
  simp only [Trail.visited, Trail.push, entry_reverse, h, List.length_reverse, hact,
    List.reverse_cons]
  exact bind_pure_comp ..

/-! ### All visits -/

/-- A node that `Engine.entry` admits below a path is live and new, so that `IsPath.push` applies.
-/
theorem isPath_push_of_entry {c : Connection} {n : Node} (h : g.IsPath path.reverse)
    (hc : c ∈ g.edgesBelow path) (admitted : engine.entry g path c.target = .ok n) :
    g.IsPath (c.target :: path).reverse := by
  obtain ⟨hnew, -, hnode⟩ := entry_eq_ok_iff.mp admitted
  exact h.push hc hnew (Graph.mem_ids_of_node? hnode)

/-- The ending with its runs on the path `path`, kept outermost first, after `visits`. -/
def onPath (path : List NodeId) (visits : List (List NodeId)) (ending : Ending) : TrailEnding :=
  mapState (fun run => ⟨run, path.reverse, visits⟩) ending

theorem mapState_pop_onPath (ending : Ending) :
    mapState Trail.pop (onPath (id :: path) visits ending) = onPath path visits ending := by
  cases ending <;> simp [onPath, mapState, Trail.pop]

/-- The recursion that keeps the path ends as `Walks` says, on the path on which it began.  If that
is an `IsPath`, then so is every path in between. -/
theorem followOnStack_of_walks {source : NodeId} {branch : Option ConditionType}
    {edges : List Connection} {ending : Ending}
    (h : Walks engine g path source branch edges r ending) (visits : List (List NodeId)) :
    ∃ more, followOnStack engine g source branch edges ⟨r, path.reverse, visits⟩
        = some (onPath path (visits ++ more) ending) ∧
      (g.IsPath path.reverse → edges ⊆ g.edgesBelow path → ∀ p ∈ more, g.IsPath p) := by
  induction h generalizing visits with
  | done =>
    refine ⟨[], ?_, by simp⟩
    rw [followOnStack, List.append_nil]
    rfl
  | skip untaken rest ih =>
    obtain ⟨more, heq, hpaths⟩ := ih visits
    refine ⟨more, ?_, fun hp hsub => hpaths hp (List.cons_subset.mp hsub).2⟩
    rw [followOnStack]
    simpa only [untaken, Bool.false_eq_true, if_false] using heq
  | @refuse path source branch c cs r e taken refusal =>
    refine ⟨[path.reverse], ?_, fun hp _ p hmem => List.mem_singleton.mp hmem ▸ hp⟩
    rw [followOnStack]
    simp only [taken, if_true, visitOnStack_of_refused refusal]
    rfl
  | @fail path source branch c cs r n e r' taken admitted failed =>
    refine ⟨[path.reverse], ?_, fun hp _ p hmem => List.mem_singleton.mp hmem ▸ hp⟩
    rw [followOnStack]
    simp only [taken, if_true, visitOnStack_of_failed admitted failed]
    rfl
  | @stop path source branch c cs r n below r' e r'' taken admitted acted down ih =>
    -- the path is one node longer below, and what is taken off in the end is this node
    obtain ⟨more, heq, hpaths⟩ := ih (visits ++ [path.reverse])
    refine ⟨path.reverse :: more, ?_, ?_⟩
    · rw [followOnStack]
      simp only [taken, if_true, visitOnStack_of_acted admitted acted, heq, Option.map_some,
        mapState_pop_onPath, List.append_assoc]
      rfl
    · intro hp hsub
      obtain ⟨hc, -⟩ := List.cons_subset.mp hsub
      have hbelow := hpaths (isPath_push_of_entry hp hc admitted) fun _ h => h
      exact List.forall_mem_cons.mpr ⟨hp, hbelow⟩
  | @pass path source branch c cs r n below r' r'' ending taken admitted acted down rest ihdown
      ihrest =>
    obtain ⟨more, heq, hpaths⟩ := ihdown (visits ++ [path.reverse])
    obtain ⟨more', heq', hpaths'⟩ := ihrest (visits ++ [path.reverse] ++ more)
    refine ⟨path.reverse :: (more ++ more'), ?_, ?_⟩
    · rw [followOnStack]
      simp only [taken, if_true, visitOnStack_of_acted admitted acted, heq, Option.map_some,
        mapState_pop_onPath]
      have hvisits : visits ++ path.reverse :: (more ++ more')
          = visits ++ [path.reverse] ++ more ++ more' := by simp
      rw [hvisits]
      exact heq'
    · intro hp hsub
      obtain ⟨hc, hrest⟩ := List.cons_subset.mp hsub
      have hbelow := hpaths (isPath_push_of_entry hp hc admitted) fun _ h => h
      have hafter := hpaths' hp hrest
      exact List.forall_mem_cons.mpr ⟨hp, List.forall_mem_append.mpr ⟨hbelow, hafter⟩⟩

theorem visitOnStack_eq (engine : Engine) (g : Graph) (path : List NodeId) (id : NodeId) (r : Run)
    (visits : List (List NodeId)) :
    ∃ more, visitOnStack engine g id ⟨r, path.reverse, visits⟩
      = some (onPath path (visits ++ more) (engine.visit g path id r)) := by
  rw [visit_apply]
  cases admitted : engine.entry g path id with
  | error e => exact ⟨[path.reverse], visitOnStack_of_refused admitted⟩
  | ok n =>
    dsimp only
    rw [bind_apply]
    cases acted : engine.act n
        (r.after (.nodeEntered id (Vocabulary.text n.nodeType) path.length)) with
    | error e r' => exact ⟨[path.reverse], visitOnStack_of_failed admitted acted⟩
    | ok below r' =>
      obtain ⟨more, heq, -⟩ := followOnStack_of_walks
        (walks_follow engine g (id :: path) id below (g.outgoing id) r') (visits ++ [path.reverse])
      refine ⟨path.reverse :: more, ?_⟩
      rw [visitOnStack_of_acted admitted acted, heq, Option.map_some, mapState_pop_onPath,
        List.append_assoc]
      rfl

theorem traverseOnStack_eq (engine : Engine) (workflow : WorkflowId) (r : Run) :
    ∃ visits, traverseOnStack engine workflow r
        = some (onPath [] visits (engine.traverse workflow r)) ∧
      ∀ p ∈ visits, (Graph.ofTables r.world.storage.tables workflow).IsPath p := by
  have htraverses := traverses_traverse engine workflow r
  obtain ⟨ending, hending⟩ : ∃ ending, engine.traverse workflow r = ending := ⟨_, rfl⟩
  rw [hending] at htraverses ⊢
  unfold traverseOnStack
  cases htraverses with
  | reserved reserved =>
    refine ⟨[], ?_, by simp⟩
    simp only [reserved, if_true]
    rfl
  | unread free refused =>
    refine ⟨[], ?_, by simp⟩
    simp only [free, Bool.false_eq_true, if_false, access_of_error refused]
    rfl
  | unstarted free loaded idle =>
    refine ⟨[], ?_, by simp⟩
    simp only [free, Bool.false_eq_true, if_false, access_of_ok loaded, idle, List.isEmpty_nil,
      if_true]
    rfl
  | walked free loaded started walk =>
    obtain rfl := Graph.load_eq_ok loaded
    obtain ⟨visits, heq, hpaths⟩ := followOnStack_of_walks walk []
    refine ⟨visits, ?_, hpaths Graph.isPath_nil fun c hc => hc⟩
    simp only [free, Bool.false_eq_true, if_false, access_of_ok loaded, List.isEmpty_iff, started]
    exact heq

/-! ### Depths -/

/-- A node is only entered at the depth of a path that leads to it, and within `engine.maxDepth`. -/
def Deep (engine : Engine) (g : Graph) (h : Happening) : Prop :=
  ∀ id kind depth, h = .nodeEntered id kind depth →
    depth < engine.maxDepth ∧ ∃ p, g.IsPath (p ++ [id]) ∧ p.length = depth

/-- While a node acts, no `nodeEntered` is reported. -/
theorem Acts.enters_none {n : Node}
    {ending : EStateM.Result ExecutionError Run (Option ConditionType)}
    (h : Acts engine n r ending) :
    ∃ hs, Run.Reports r (leftBy ending) hs ∧
      ∀ id kind depth, Happening.nodeEntered id kind depth ∉ hs := by
  obtain ⟨result, -, ⟨hs, hreports, hmoves⟩, -, -⟩ := h.outcome
  refine ⟨hs, hreports, ?_⟩
  intro id kind depth hmem
  have hmove : Happening.nodeEntered id kind depth ∈ hs.filter Happening.isMove :=
    List.mem_filter.mpr ⟨hmem, rfl⟩
  rw [hmoves] at hmove
  cases result <;> simp at hmove

theorem Acts.deep {n : Node} {c : Connection}
    {ending : EStateM.Result ExecutionError Run (Option ConditionType)}
    (h : Acts engine n
      (r.after (.nodeEntered c.target (Vocabulary.text n.nodeType) path.length)) ending)
    (admitted : engine.entry g path c.target = .ok n) (hp : g.IsPath path.reverse)
    (hc : c ∈ g.edgesBelow path) :
    ∃ hs, Run.Reports r (leftBy ending) hs ∧ ∀ h ∈ hs, Deep engine g h := by
  obtain ⟨hs, hreports, hnone⟩ := h.enters_none
  refine ⟨_, (Run.reports_after _ _).trans hreports, ?_⟩
  intro h hmem id kind depth hh
  subst hh
  rcases List.mem_append.mp hmem with hmem | hmem
  · obtain ⟨rfl, -, rfl⟩ := Happening.nodeEntered.inj (List.mem_singleton.mp hmem)
    obtain ⟨-, hdepth, -⟩ := entry_eq_ok_iff.mp admitted
    refine ⟨hdepth, path.reverse, ?_, List.length_reverse⟩
    rw [← List.reverse_cons]
    exact isPath_push_of_entry hp hc admitted
  · exact absurd hmem (hnone id kind depth)

theorem deep_of_walks {source : NodeId} {branch : Option ConditionType} {edges : List Connection}
    {ending : Ending} (h : Walks engine g path source branch edges r ending)
    (hp : g.IsPath path.reverse) (hsub : edges ⊆ g.edgesBelow path) :
    ∃ hs, Run.Reports r (leftBy ending) hs ∧ ∀ h ∈ hs, Deep engine g h := by
  -- the depth of an entry is the length of its path, and all that is entered stands on paths
  induction h with
  | done => exact ⟨[], .refl _, by simp⟩
  | @skip path source branch c cs r ending untaken rest ih =>
    obtain ⟨hs, hreports, hdeep⟩ := ih hp (List.cons_subset.mp hsub).2
    have hskip : Deep engine g (.edgeSkipped source c.target) := by
      rintro id kind depth ⟨⟩
    refine ⟨_, (Run.reports_after _ _).trans hreports, ?_⟩
    exact List.forall_mem_append.mpr ⟨List.forall_mem_singleton.mpr hskip, hdeep⟩
  | refuse => exact ⟨[], .refl _, by simp⟩
  | @fail path source branch c cs r n e r' taken admitted failed =>
    exact (acts_of_act failed).deep admitted hp (List.cons_subset.mp hsub).1
  | @stop path source branch c cs r n below r' e r'' taken admitted acted down ih =>
    obtain ⟨hc, -⟩ := List.cons_subset.mp hsub
    obtain ⟨hs, hreports, hdeep⟩ := (acts_of_act acted).deep admitted hp hc
    obtain ⟨hs', hreports', hdeep'⟩ := ih (isPath_push_of_entry hp hc admitted) fun _ h => h
    exact ⟨_, hreports.trans hreports', List.forall_mem_append.mpr ⟨hdeep, hdeep'⟩⟩
  | @pass path source branch c cs r n below r' r'' ending taken admitted acted down rest ihdown
      ihrest =>
    obtain ⟨hc, hrest⟩ := List.cons_subset.mp hsub
    obtain ⟨hs, hreports, hdeep⟩ := (acts_of_act acted).deep admitted hp hc
    obtain ⟨hs', hreports', hdeep'⟩ := ihdown (isPath_push_of_entry hp hc admitted) fun _ h => h
    obtain ⟨hs'', hreports'', hdeep''⟩ := ihrest hp hrest
    refine ⟨_, (hreports.trans hreports').trans hreports'', ?_⟩
    exact List.forall_mem_append.mpr ⟨List.forall_mem_append.mpr ⟨hdeep, hdeep'⟩, hdeep''⟩

theorem Traverses.deep {workflow : WorkflowId} {ending : Ending}
    (h : Traverses engine workflow r ending) :
    ∃ hs, Run.Reports r (leftBy ending) hs ∧ ∀ id kind depth,
      .nodeEntered id kind depth ∈ hs → depth < engine.maxDepth ∧
        ∃ p, (Graph.ofTables r.world.storage.tables workflow).IsPath (p ++ [id]) ∧
          p.length = depth := by
  cases h with
  | reserved => exact ⟨[], .refl r, by simp⟩
  | unread => exact ⟨[], Run.reports_withStorage _ _, by simp⟩
  | unstarted => exact ⟨[], Run.reports_withStorage _ _, by simp⟩
  | walked free loaded started walk =>
    obtain rfl := Graph.load_eq_ok loaded
    obtain ⟨hs, hreports, hdeep⟩ := deep_of_walks walk Graph.isPath_nil fun c hc => hc
    exact ⟨hs, (Run.reports_withStorage _ _).trans hreports,
      fun id kind depth hmem => hdeep _ hmem id kind depth rfl⟩

/-- A node that a run enters is the end of an `IsPath` in the graph as it is when the run begins. -/
theorem tells_paths (engine : Engine) (workflow : Workflow) (triggerType : String)
    (payload : Fields) (w : World) :
    w.Tells (fun x => ∀ id kind depth, x = .nodeEntered id kind depth →
        ∃ p, (Graph.ofTables w.storage.tables workflow.id).IsPath (p ++ [id]))
      (leftBy (engine.execute workflow triggerType payload w)) := by
  refine tells_execute engine workflow triggerType payload w ?_ ?_ ?_
  · rintro id kind depth heq
    cases heq
  · intro r w' begun
    obtain ⟨hs, hreports, hdeep⟩ := (traverses_traverse engine workflow.id r).deep
    rw [ofTables_begin begun] at hdeep
    refine ⟨hs, hreports, ?_⟩
    rintro x hx id kind depth rfl
    obtain ⟨-, p, hpath, -⟩ := hdeep id kind depth hx
    exact ⟨p, hpath⟩
  · rintro (_ | _) id kind depth heq <;> cases heq

/-! ### The whole -/

theorem run_onPath (path : List NodeId) (visits : List (List NodeId)) (ending : Ending) :
    mapState Trail.run (onPath path visits ending) = ending := by
  cases ending <;> rfl

theorem path_onPath (path : List NodeId) (visits : List (List NodeId)) (ending : Ending) :
    (leftBy (onPath path visits ending)).path = path.reverse := by
  cases ending <;> rfl

theorem visits_onPath (path : List NodeId) (visits : List (List NodeId)) (ending : Ending) :
    (leftBy (onPath path visits ending)).visits = visits := by
  cases ending <;> rfl

/-- The recursion that keeps its path ends without a bound of its own, whatever the graph and the
path are; it does what `Engine.visit`, `Engine.follow` and `Engine.traverse` do and leaves the path
as it was.  Every visit of a traversal is on an `IsPath` of the graph that is loaded, and the depth
of an entered node is below `engine.maxDepth` and below the number of live nodes. -/
theorem recursion_ends_on_its_path (engine : Engine) :
    (∀ (g : Graph) (id : NodeId) (t : Trail), ∃ ending,
      visitOnStack engine g id t = some ending ∧ (leftBy ending).path = t.path ∧
      mapState Trail.run ending = engine.visit g t.path.reverse id t.run) ∧
    (∀ (g : Graph) (source : NodeId) (branch : Option ConditionType) (edges : List Connection)
      (t : Trail), ∃ ending,
      followOnStack engine g source branch edges t = some ending ∧ (leftBy ending).path = t.path ∧
      mapState Trail.run ending = engine.follow g t.path.reverse source branch edges t.run) ∧
    (∀ (workflow : WorkflowId) (r : Run), ∃ ending,
      traverseOnStack engine workflow r = some ending ∧
      mapState Trail.run ending = engine.traverse workflow r ∧
      ∀ path ∈ (leftBy ending).visits,
        (Graph.ofTables r.world.storage.tables workflow).IsPath path) ∧
    ∀ (workflow : Workflow) (triggerType : String) (payload : Fields) (w : World),
      (Graph.ofTables w.storage.tables workflow.id).ids.Nodup ∧
      ∃ news, (leftBy (engine.execute workflow triggerType payload w)).events = w.events ++ news ∧
        ∀ e ∈ news, ∀ id kind depth, e.happening = .nodeEntered id kind depth →
          depth < engine.maxDepth ∧
          depth < (Graph.ofTables w.storage.tables workflow.id).ids.length := by
  refine ⟨?_, ?_, ?_, ?_⟩
  · rintro g id ⟨r, path, visits⟩
    obtain ⟨more, heq⟩ := visitOnStack_eq engine g path.reverse id r visits
    rw [List.reverse_reverse] at heq
    refine ⟨_, heq, ?_, run_onPath _ _ _⟩
    rw [path_onPath, List.reverse_reverse]
  · rintro g source branch edges ⟨r, path, visits⟩
    obtain ⟨more, heq, -⟩ := followOnStack_of_walks
      (walks_follow engine g path.reverse source branch edges r) visits
    rw [List.reverse_reverse] at heq
    refine ⟨_, heq, ?_, run_onPath _ _ _⟩
    rw [path_onPath, List.reverse_reverse]
  · intro workflow r
    obtain ⟨visits, heq, hpaths⟩ := traverseOnStack_eq engine workflow r
    refine ⟨_, heq, run_onPath _ _ _, ?_⟩
    rwa [visits_onPath]
  · intro workflow triggerType payload w
    refine ⟨Graph.nodup_ids_ofRows _ _, ?_⟩
    cases hbegin : Run.begin workflow triggerType payload w with
    | error e w' =>
      refine ⟨[], ?_, by simp⟩
      rw [events_execute_of_refused hbegin, List.append_nil]
    | ok r w' =>
      obtain ⟨hs, hreports, hdeep⟩ := (traverses_traverse engine workflow.id r).deep
      rw [ofTables_begin hbegin] at hdeep
      obtain ⟨news, hevents, hnews⟩ := events_execute hbegin hreports
      refine ⟨news, hevents, ?_⟩
      intro e he id kind depth hentered
      have hmem : e.happening ∈ news.map Event.happening := List.mem_map_of_mem he
      rw [hentered, hnews] at hmem
      -- neither the start nor the outcome enters a node
      have hne : Happening.nodeEntered id kind depth
          ≠ outcome w.now (engine.traverse workflow.id r) := by
        cases engine.traverse workflow.id r <;> exact Happening.noConfusion
      obtain ⟨hdepth, p, hp, rfl⟩ := hdeep id kind depth (by simpa [hne] using hmem)
      refine ⟨hdepth, ?_⟩
      have hlength := hp.length_le
      rw [List.length_append, List.length_singleton] at hlength
      omega

end TriggerFlow.Engine
