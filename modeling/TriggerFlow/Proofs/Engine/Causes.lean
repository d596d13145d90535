import TriggerFlow.Proofs.Engine.PathStack
import TriggerFlow.Proofs.Engine.Row
/-!
# Why a run fails

A run that has begun to walk its graph fails for one of two reasons (`Blames`): on a path from the
trigger there is a connection to a node that `Engine.entry` refuses, or the node that has been
entered last fails to act.  A fact about the run that nodes keep as long as they act well (`Keeps`)
holds of the run when the node acts that fails, and of the run that completes (`blames_of_walks`).
-/

namespace TriggerFlow.Engine

variable {engine : Engine} {g : Graph} {path : List NodeId} {r : Run} {I : Run → Prop}

/-- The fact `I` about a run is touched by no report, and by no node that acts well. -/
structure Keeps (engine : Engine) (I : Run → Prop) : Prop where
  after : ∀ r happening, I r → I (r.after happening)
  acts : ∀ n r branch r', I r → Acts engine n r (.ok branch r') → I r'

theorem keeps_true (engine : Engine) : Keeps engine fun _ => True :=
  ⟨fun _ _ _ => trivial, fun _ _ _ _ _ _ => trivial⟩

/-- Some event `nodeEntered id` is among `hs`. -/
def Entered (hs : List Happening) (id : NodeId) : Prop :=
  ∃ kind depth, Happening.nodeEntered id kind depth ∈ hs

/-- Some event `nodeEntered id` is among `hs`, and no `nodeEntered` comes after it. -/
def EnteredLast (hs : List Happening) (id : NodeId) : Prop :=
  ∃ before kind depth after, hs = before ++ .nodeEntered id kind depth :: after ∧
    ∀ id' kind' depth', Happening.nodeEntered id' kind' depth' ∉ after

/-- More may be reported before, and after it whatever enters no node. -/
theorem EnteredLast.around {hs : List Happening} {id : NodeId} (h : EnteredLast hs id)
    (before : List Happening) {after : List Happening}
    (silent : ∀ id kind depth, Happening.nodeEntered id kind depth ∉ after) :
    EnteredLast (before ++ (hs ++ after)) id := by
  obtain ⟨past, kind, depth, rest, rfl, hnone⟩ := h
  refine ⟨before ++ past, kind, depth, rest ++ after, by simp, fun id' kind' depth' hmem => ?_⟩
  exact (List.mem_append.mp hmem).elim (hnone id' kind' depth') (silent id' kind' depth')

/-- Why a run that has reported `hs` fails with an error: a connection from an `IsPath` leads to a
node that is `refused`, or the node entered last has `failed`, in a run with the fact `I`. -/
inductive Blames (engine : Engine) (g : Graph) (I : Run → Prop) (hs : List Happening) :
    ExecutionError → Prop
  | refused {path c e} (on_path : g.IsPath path.reverse) (edge : c ∈ g.edgesBelow path)
      (refusal : engine.entry g path c.target = .error e) : Blames engine g I hs e
  | failed {n r r' e} (node : g.node? n.id = some n) (entered : EnteredLast hs n.id) (kept : I r)
      (acted : Acts engine n r (.error e r')) : Blames engine g I hs e

theorem Blames.around {hs : List Happening} {e : ExecutionError}
    (h : Blames engine g I hs e) (before after : List Happening)
    (silent : ∀ id kind depth, Happening.nodeEntered id kind depth ∉ after) :
    Blames engine g I (before ++ (hs ++ after)) e := by
  cases h with
  | refused on_path edge refusal => exact .refused on_path edge refusal
  | failed node entered kept acted => exact .failed node (entered.around before silent) kept acted

/-- What is to blame is so whatever has been reported before. -/
theorem Blames.later {hs : List Happening} {e : ExecutionError} (h : Blames engine g I hs e)
    (before : List Happening) : Blames engine g I (before ++ hs) e := by
  simpa using h.around before [] (by simp)

theorem blames_of_walks {source : NodeId} {branch : Option ConditionType} {edges : List Connection}
    {ending : Ending} (h : Walks engine g path source branch edges r ending)
    (hp : g.IsPath path.reverse) (hsub : edges ⊆ g.edgesBelow path) (keeps : Keeps engine I)
    (hI : I r) :
    ∃ hs, Run.Reports r (leftBy ending) hs ∧ (∀ r', ending = .ok () r' → I r') ∧
      ∀ e r', ending = .error e r' → Blames engine g I hs e := by
  induction h with
  | done => exact ⟨[], .refl _, by rintro r' ⟨⟩; exact hI, by simp⟩
  | @skip path source branch c cs r ending untaken rest ih =>
    obtain ⟨-, hrest⟩ := List.cons_subset.mp hsub
    obtain ⟨hs, hreports, hok, herror⟩ := ih hp hrest (keeps.after _ _ hI)
    refine ⟨_, (Run.reports_after _ _).trans hreports, hok, ?_⟩
    intro e r' hending
    exact (herror e r' hending).later _
  | refuse taken refusal =>
    obtain ⟨hc, -⟩ := List.cons_subset.mp hsub
    refine ⟨[], .refl _, by simp, ?_⟩
    rintro e r' ⟨⟩
    exact .refused hp hc refusal
  | @fail path source branch c cs r n e r' taken admitted failed =>
    obtain ⟨-, -, node⟩ := entry_eq_ok_iff.mp admitted
    have hid := DepthFirst.id_of_node? node
    obtain ⟨hs, hreports, hnone⟩ := (acts_of_act failed).enters_none
    refine ⟨_, (Run.reports_after _ _).trans hreports, by simp, ?_⟩
    rintro e r' ⟨⟩
    -- the node has been reported before it fails, from a state of which the fact still holds
    have hentered : EnteredLast
        ([.nodeEntered c.target (Vocabulary.text n.nodeType) path.length] ++ hs) n.id := by
      rw [hid]
      exact ⟨[], Vocabulary.text n.nodeType, path.length, hs, rfl, hnone⟩
    exact .failed (by rwa [hid]) hentered (keeps.after _ _ hI) (acts_of_act failed)
  | @stop path source branch c cs r n below r' e r'' taken admitted acted down ih =>
    obtain ⟨hc, -⟩ := List.cons_subset.mp hsub
    have hacts := acts_of_act acted
    have hI' := keeps.acts _ _ _ _ (keeps.after _ _ hI) hacts
    obtain ⟨hs, hreports, -⟩ := hacts.enters_none
    obtain ⟨hs', hreports', -, herror⟩ :=
      ih (isPath_push_of_entry hp hc admitted) (fun _ h => h) hI'
    refine ⟨_, ((Run.reports_after _ _).trans hreports).trans hreports', by simp, ?_⟩
    intro e' r₃ hending
    exact (herror e' r₃ hending).later _
  | @pass path source branch c cs r n below r' r'' ending taken admitted acted down rest ihdown
      ihrest =>
    obtain ⟨hc, hrest⟩ := List.cons_subset.mp hsub
    have hacts := acts_of_act acted
    have hI' := keeps.acts _ _ _ _ (keeps.after _ _ hI) hacts
    obtain ⟨hs, hreports, -⟩ := hacts.enters_none
    obtain ⟨hs', hreports', hok', -⟩ :=
      ihdown (isPath_push_of_entry hp hc admitted) (fun _ h => h) hI'
    -- the fact holds again when everything below the node is done
    obtain ⟨hs'', hreports'', hok, herror⟩ := ihrest hp hrest (hok' _ rfl)
    refine ⟨_, (((Run.reports_after _ _).trans hreports).trans hreports').trans hreports'', hok, ?_⟩
    intro e r₃ hending
    exact (herror e r₃ hending).later _

/-- A traversal that fails was refused its payload or its graph, had nowhere to start, or there is
something to blame.  One that succeeds keeps the fact `I`. -/
theorem Traverses.blames {workflow : WorkflowId} {ending : Ending}
    (h : Traverses engine workflow r ending) (keeps : Keeps engine I)
    (hload : ∀ s g, Graph.load workflow r.world.storage = .ok g s → I (r.withStorage s)) :
    ∃ hs, Run.Reports r (leftBy ending) hs ∧ (∀ r', ending = .ok () r' → I r') ∧
      ∀ e r', ending = .error e r' →
        (e = .reservedContextKey actionsKey ∧
          Fields.has actionsKey r.execution.triggerData = true) ∨
        (∃ e' s, e = .store e' ∧ Graph.load workflow r.world.storage = .error e' s) ∨
        (e = .noStartNode ∧ (Graph.ofTables r.world.storage.tables workflow).startEdges = []) ∨
        Blames engine (Graph.ofTables r.world.storage.tables workflow) I hs e := by
  cases h with
  | reserved reserved =>
    refine ⟨[], .refl r, by simp, ?_⟩
    rintro e r' ⟨⟩
    exact .inl ⟨rfl, reserved⟩
  | unread free refused =>
    refine ⟨[], Run.reports_withStorage _ _, by simp, ?_⟩
    rintro e r' ⟨⟩
    exact .inr (.inl ⟨_, _, rfl, refused⟩)
  | unstarted free loaded idle =>
    obtain rfl := Graph.load_eq_ok loaded
    refine ⟨[], Run.reports_withStorage _ _, by simp, ?_⟩
    rintro e r' ⟨⟩
    exact .inr (.inr (.inl ⟨rfl, idle⟩))
  | walked free loaded started walk =>
    have hI := hload _ _ loaded
    obtain rfl := Graph.load_eq_ok loaded
    obtain ⟨hs, hreports, hok, herror⟩ :=
      blames_of_walks walk Graph.isPath_nil (fun c hc => hc) keeps hI
    refine ⟨hs, (Run.reports_withStorage _ _).trans hreports, hok, ?_⟩
    intro e r' hending
    exact .inr (.inr (.inr (herror e r' hending)))

end TriggerFlow.Engine
