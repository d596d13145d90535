import TriggerFlow.Proofs.Authoring.Integrity
/-!
# What a patch makes of a row

A patch is applied to the copy that the author has in hand, and the store then takes the row as a
whole, except for its mark `deleted`.  A field that is absent from the patch therefore keeps
its stored value if and only if the copy has that value too (`Agrees`): where somebody has changed
the row since the copy was handed out, the change is lost.  So is the earlier of two patches of one
copy, also when they are `Disjoint` (`patch_keeps_iff`).
-/

namespace TriggerFlow

/-! ### Rows and patches -/

/-- What `create` says of a workflow, and no change touches. -/
def Workflow.origin (w : Workflow) : OrganizationId × UserId × Timestamp :=
  (w.organization, w.createdBy, w.created)

/-- The row has the value of every field that the patch has, and that of `base` of every other one.
-/
structure WorkflowInput.Makes (data : WorkflowInput) (base row : Workflow) : Prop where
  id : row.id = base.id
  origin : row.origin = base.origin
  deleted : row.deleted = base.deleted
  name : row.name = data.name.getD base.name
  description : row.description = (data.description <|> base.description)
  triggerType : Vocabulary.text row.triggerType =
    data.triggerType.getD (Vocabulary.text base.triggerType)
  triggerConfig : row.triggerConfig = data.triggerConfig.getD base.triggerConfig
  status : Vocabulary.text row.status = data.status.getD (Vocabulary.text base.status)

/-- The rows `w` and `w'` agree in the fields that the patch does not have. -/
structure WorkflowInput.Agrees (data : WorkflowInput) (w w' : Workflow) : Prop where
  name : data.name = none → w.name = w'.name
  description : data.description = none → w.description = w'.description
  triggerType : data.triggerType = none → w.triggerType = w'.triggerType
  triggerConfig : data.triggerConfig = none → w.triggerConfig = w'.triggerConfig
  status : data.status = none → w.status = w'.status

/-- The patch would make nothing else of the row: `data.Makes row row`. -/
def WorkflowInput.InEffect (data : WorkflowInput) (row : Workflow) : Prop := data.Makes row row

/-- No field is in both patches. -/
structure WorkflowInput.Disjoint (data other : WorkflowInput) : Prop where
  name : data.name = none ∨ other.name = none
  description : data.description = none ∨ other.description = none
  triggerType : data.triggerType = none ∨ other.triggerType = none
  triggerConfig : data.triggerConfig = none ∨ other.triggerConfig = none
  status : data.status = none ∨ other.status = none

/-- The row has the value of every field that the patch has, and that of `base` of every other one.
-/
structure NodeInput.Makes (data : NodeInput) (base row : Node) : Prop where
  id : row.id = base.id
  workflow : row.workflow = base.workflow
  deleted : row.deleted = base.deleted
  nodeType : Vocabulary.text row.nodeType = data.nodeType.getD (Vocabulary.text base.nodeType)
  actionType : row.actionType = (data.actionType <|> base.actionType)
  name : row.name = (data.name <|> base.name)
  config : row.config = data.config.getD base.config
  position : row.position = data.position.getD base.position

/-- The rows `n` and `n'` agree in the fields that the patch does not have. -/
structure NodeInput.Agrees (data : NodeInput) (n n' : Node) : Prop where
  nodeType : data.nodeType = none → n.nodeType = n'.nodeType
  actionType : data.actionType = none → n.actionType = n'.actionType
  name : data.name = none → n.name = n'.name
  config : data.config = none → n.config = n'.config
  position : data.position = none → n.position = n'.position

/-- The patch would make nothing else of the row: `data.Makes row row`. -/
def NodeInput.InEffect (data : NodeInput) (row : Node) : Prop := data.Makes row row

structure NodeInput.Disjoint (data other : NodeInput) : Prop where
  nodeType : data.nodeType = none ∨ other.nodeType = none
  actionType : data.actionType = none ∨ other.actionType = none
  name : data.name = none ∨ other.name = none
  config : data.config = none ∨ other.config = none
  position : data.position = none ∨ other.position = none

/-! ### Two bases of one row -/

section Field

variable {α : Type}

theorem getD_eq_getD_iff {o : Option α} {a b : α} : o.getD a = o.getD b ↔ (o = none → a = b) := by
  cases o <;> simp

theorem orElse_eq_orElse_iff {o a b : Option α} :
    (o <|> a) = (o <|> b) ↔ (o = none → a = b) := by
  cases o <;> simp

theorem word_eq_word_iff [Vocabulary α] {o : Option String} {a b : α} :
    o.getD (Vocabulary.text a) = o.getD (Vocabulary.text b) ↔ (o = none → a = b) := by
  rw [getD_eq_getD_iff]
  exact imp_congr_right fun _ => ⟨Vocabulary.text_injective a b, congrArg _⟩

/-- Where `o` and `o'` are not both there, setting `o` in `a` does not change whether `o'` is in
effect. -/
theorem eq_getD_iff {o o' : Option α} {a b : α} (disjoint : o = none ∨ o' = none)
    (hb : b = o.getD a) : b = o'.getD b ↔ a = o'.getD a := by
  rcases disjoint with rfl | rfl
  · rw [hb, Option.getD_none]
  · exact iff_of_true rfl rfl

theorem eq_orElse_iff {o o' a b : Option α} (disjoint : o = none ∨ o' = none)
    (hb : b = (o <|> a)) : b = (o' <|> b) ↔ a = (o' <|> a) := by
  rcases disjoint with rfl | rfl
  · obtain rfl : b = a := hb
    exact Iff.rfl
  · exact iff_of_true rfl rfl

end Field

/-- What the patch makes of `copy`, it makes of `stored` exactly if the two agree in the fields that
it does not have. -/
theorem WorkflowInput.Makes.iff_agrees {data : WorkflowInput} {copy stored row : Workflow}
    (h : data.Makes { copy with deleted := stored.deleted } row) (id_eq : stored.id = copy.id)
    (origin_eq : stored.origin = copy.origin) :
    data.Makes stored row ↔ data.Agrees copy stored := by
  constructor
  · intro h'
    exact ⟨getD_eq_getD_iff.mp (h.name.symm.trans h'.name),
      orElse_eq_orElse_iff.mp (h.description.symm.trans h'.description),
      word_eq_word_iff.mp (h.triggerType.symm.trans h'.triggerType),
      getD_eq_getD_iff.mp (h.triggerConfig.symm.trans h'.triggerConfig),
      word_eq_word_iff.mp (h.status.symm.trans h'.status)⟩
  · rintro ⟨name, description, triggerType, triggerConfig, status⟩
    exact ⟨h.id.trans id_eq.symm, h.origin.trans origin_eq.symm, h.deleted,
      h.name.trans (getD_eq_getD_iff.mpr name),
      h.description.trans (orElse_eq_orElse_iff.mpr description),
      h.triggerType.trans (word_eq_word_iff.mpr triggerType),
      h.triggerConfig.trans (getD_eq_getD_iff.mpr triggerConfig),
      h.status.trans (word_eq_word_iff.mpr status)⟩

theorem NodeInput.Makes.iff_agrees {data : NodeInput} {copy stored row : Node}
    (h : data.Makes { copy with deleted := stored.deleted } row) (id_eq : stored.id = copy.id)
    (member : stored.workflow = copy.workflow) :
    data.Makes stored row ↔ data.Agrees copy stored := by
  constructor
  · intro h'
    exact ⟨word_eq_word_iff.mp (h.nodeType.symm.trans h'.nodeType),
      orElse_eq_orElse_iff.mp (h.actionType.symm.trans h'.actionType),
      orElse_eq_orElse_iff.mp (h.name.symm.trans h'.name),
      getD_eq_getD_iff.mp (h.config.symm.trans h'.config),
      getD_eq_getD_iff.mp (h.position.symm.trans h'.position)⟩
  · rintro ⟨nodeType, actionType, name, config, position⟩
    exact ⟨h.id.trans id_eq.symm, h.workflow.trans member.symm, h.deleted,
      h.nodeType.trans (word_eq_word_iff.mpr nodeType),
      h.actionType.trans (orElse_eq_orElse_iff.mpr actionType),
      h.name.trans (orElse_eq_orElse_iff.mpr name),
      h.config.trans (getD_eq_getD_iff.mpr config),
      h.position.trans (getD_eq_getD_iff.mpr position)⟩

/-- A disjoint patch `other` is in effect in the row that `data` makes of `copy` exactly if it was
in effect in `copy`. -/
theorem WorkflowInput.Makes.inEffect_iff {data other : WorkflowInput} {copy row : Workflow}
    {deleted : Bool} (h : data.Makes { copy with deleted } row) (disjoint : data.Disjoint other) :
    other.InEffect row ↔ other.InEffect copy := by
  have name := eq_getD_iff disjoint.name h.name
  have description := eq_orElse_iff disjoint.description h.description
  have triggerType := eq_getD_iff disjoint.triggerType h.triggerType
  have triggerConfig := eq_getD_iff disjoint.triggerConfig h.triggerConfig
  have status := eq_getD_iff disjoint.status h.status
  constructor
  · intro held
    exact ⟨rfl, rfl, rfl, name.mp held.name, description.mp held.description,
      triggerType.mp held.triggerType, triggerConfig.mp held.triggerConfig, status.mp held.status⟩
  · intro held
    exact ⟨rfl, rfl, rfl, name.mpr held.name, description.mpr held.description,
      triggerType.mpr held.triggerType, triggerConfig.mpr held.triggerConfig,
      status.mpr held.status⟩

theorem NodeInput.Makes.inEffect_iff {data other : NodeInput} {copy row : Node}
    {deleted : Bool} (h : data.Makes { copy with deleted } row) (disjoint : data.Disjoint other) :
    other.InEffect row ↔ other.InEffect copy := by
  have nodeType := eq_getD_iff disjoint.nodeType h.nodeType
  have actionType := eq_orElse_iff disjoint.actionType h.actionType
  have name := eq_orElse_iff disjoint.name h.name
  have config := eq_getD_iff disjoint.config h.config
  have position := eq_getD_iff disjoint.position h.position
  constructor
  · intro held
    exact ⟨rfl, rfl, rfl, nodeType.mp held.nodeType, actionType.mp held.actionType,
      name.mp held.name, config.mp held.config, position.mp held.position⟩
  · intro held
    exact ⟨rfl, rfl, rfl, nodeType.mpr held.nodeType, actionType.mpr held.actionType,
      name.mpr held.name, config.mpr held.config, position.mpr held.position⟩

namespace Authoring

open Storage

variable {s s' : Storage} {t : Tables} {h given : Handles}

/-! ### Accepted patches -/

/-- An accepted patch is applied to the row in hand, with `deleted` from the stored row, and the
result is stored. -/
theorem makes_of_update {workflow row : Workflow} {data : WorkflowInput}
    (h : update workflow data s = .ok row s') :
    ∃ stored, s.tables.getWorkflow workflow.id true = some stored ∧
      data.Makes { workflow with deleted := stored.deleted } row ∧
      s'.tables.getWorkflow workflow.id true = some row := by
  obtain ⟨-, stored, hfound, ⟨_, _, htype, hstatus, rfl⟩, htables⟩ := update_eq_ok h
  refine ⟨stored, hfound, ⟨rfl, rfl, rfl, rfl, rfl, htype, rfl, hstatus⟩, ?_⟩
  rw [htables]
  exact Tables.getWorkflow_replaceFirst hfound rfl

theorem makes_of_updateNode {node row : Node} {data : NodeInput}
    (h : updateNode node data s = .ok row s') :
    ∃ stored, s.tables.getNode node.id true = some stored ∧
      data.Makes { node with deleted := stored.deleted } row ∧
      s'.tables.getNode node.id true = some row := by
  obtain ⟨stored, hfound, ⟨_, htype, rfl⟩, htables⟩ := updateNode_eq_ok h
  refine ⟨stored, hfound, ⟨rfl, rfl, rfl, htype, rfl, rfl, rfl, rfl⟩, ?_⟩
  rw [htables]
  exact Tables.getNode_replaceFirst hfound rfl

/-! ### Workflows in hand -/

theorem copied_workflows_of_run {op : Operation}
    (hc : Copied Workflow.id Workflow.origin s.tables.workflows h.workflows) (held : op.Held h)
    (fresh : h.Fresh s) (hrun : op.run s = .ok given s') :
    Copied Workflow.id Workflow.origin s'.tables.workflows (h.and given).workflows := by
  have does := does_of_run hrun
  generalize s'.tables = t at does ⊢
  have hnone {rows : List Workflow} (hc : Copied Workflow.id Workflow.origin rows h.workflows) :
      Copied Workflow.id Workflow.origin rows (h.workflows ++ []) := by rwa [List.append_nil]
  cases does with
  | look looking within => exact hc.handOut fun w hw => hc.known w (within.workflows hw)
  | create id_eq new =>
    apply hc.add
    rw [id_eq]
    exact fresh.workflow
  | @update workflow data row stored found id_eq mark =>
    obtain ⟨w, hupdate, hgiven⟩ := answer_eq_ok hrun
    obtain rfl : w = row := by simpa [Handles.ofWorkflows] using hgiven
    obtain ⟨_, -, hmakes, -⟩ := makes_of_update hupdate
    -- a patch starts from the copy at hand, and no patch changes where a row comes from
    have hrow : ∃ w' ∈ h.workflows, w.id = w'.id ∧ w.origin = w'.origin :=
      ⟨workflow, held, hmakes.id, hmakes.origin⟩
    refine (hc.replace hrow _).handOut fun w' hw' => ?_
    rwa [List.mem_singleton.mp hw']
  | @delete workflow row stored found row_eq =>
    have hrow : ∃ w ∈ h.workflows, row.id = w.id ∧ row.origin = w.origin := by
      rw [row_eq]
      exact hc.known stored (List.mem_of_find?_eq_some found)
    exact hnone (hc.replace hrow _)
  | hardDelete => exact hnone (hc.mono List.filter_sublist.subset)
  | _ => exact hnone hc

/-- The rows of a workflow, in hand or stored, all have the same `origin`. -/
theorem copied_workflows_of_authored (authored : Authored t h) :
    Copied Workflow.id Workflow.origin t.workflows h.workflows :=
  Authored.holds (P := fun t h => Copied Workflow.id Workflow.origin t.workflows h.workflows)
    authored .nil (fun _ _ _ hc => hc)
    fun _ _ _ _ _ _ hc held fresh hrun => copied_workflows_of_run hc held fresh hrun

/-! ### What is kept -/

/-- In `Authored` tables, an accepted patch stores what it `Makes` of the copy in hand.  It makes
the same of the stored row exactly if copy and row agree in the fields that it does not have; and an
earlier patch disjoint from it is in effect afterwards exactly if it is in the copy. -/
theorem patch_keeps_iff (authored : Authored s.tables h) :
    (∀ copy ∈ h.workflows, ∀ data row s', update copy data s = .ok row s' →
      ∃ stored, s.tables.getWorkflow copy.id true = some stored ∧
        s'.tables.getWorkflow copy.id true = some row ∧
        data.Makes { copy with deleted := stored.deleted } row ∧
        (data.Makes stored row ↔ data.Agrees copy stored) ∧
        ∀ other, data.Disjoint other → (other.InEffect row ↔ other.InEffect copy)) ∧
    ∀ copy ∈ h.nodes, ∀ data row s', updateNode copy data s = .ok row s' →
      ∃ stored, s.tables.getNode copy.id true = some stored ∧
        s'.tables.getNode copy.id true = some row ∧
        data.Makes { copy with deleted := stored.deleted } row ∧
        (data.Makes stored row ↔ data.Agrees copy stored) ∧
        ∀ other, data.Disjoint other → (other.InEffect row ↔ other.InEffect copy) := by
  constructor
  · intro copy held data row s' hupdate
    obtain ⟨stored, hfound, hmakes, hafter⟩ := makes_of_update hupdate
    obtain ⟨hstored, hid, -⟩ := Tables.getWorkflow_eq_some hfound
    -- copy and row differ only in what a patch can set
    have horigin : stored.origin = copy.origin :=
      (copied_workflows_of_authored authored).mark_eq hstored held hid
    exact ⟨stored, hfound, hafter, hmakes, hmakes.iff_agrees hid horigin,
      fun _ disjoint => hmakes.inEffect_iff disjoint⟩
  · intro copy held data row s' hupdate
    obtain ⟨stored, hfound, hmakes, hafter⟩ := makes_of_updateNode hupdate
    obtain ⟨hstored, hid, -⟩ := Tables.getNode_eq_some hfound
    have hmember : stored.workflow = copy.workflow :=
      (intact_of_authored authored).copied.mark_eq hstored held hid
    exact ⟨stored, hfound, hafter, hmakes, hmakes.iff_agrees hid hmember,
      fun _ disjoint => hmakes.inEffect_iff disjoint⟩

/-! ### Two patches of one copy -/

def draft : Workflow := .new (Uuid.ofHalves 0 1) Uuid.nil Uuid.nil "Draft" .eventCreated default

/-- The patches `describing` and `retitling` are `Disjoint`. -/
def describing : WorkflowInput := ⟨none, some "Reviewed", none, none, none⟩

def retitling : WorkflowInput := ⟨some "Final", none, none, none, none⟩

/-- The author makes `draft`, and applies both patches to the row that has been handed out then. -/
def draftOperations : List Operation :=
  [.create ⟨some "Draft", none, some "event.created", none, none⟩ Uuid.nil Uuid.nil,
   .update draft describing,
   .update draft retitling]

/-- The store after the first `done` of these operations. -/
def draftStorage (done : Nat) : Storage :=
  (draftOperations.take done).foldl (fun s op => leftBy (op.run s))
    (.fresh (.ofNames fun _ n => Uuid.ofHalves 0 n) default)

/-- The patch `describing` keeps what it does not say.  After it `retitling` does not, and undoes
it. -/
theorem draftStorage_kept :
    (∃ stored row, (draftStorage 1).tables.getWorkflow draft.id true = some stored ∧
      (draftStorage 2).tables.getWorkflow draft.id true = some row ∧ describing.Makes stored row) ∧
    ∃ stored row, (draftStorage 2).tables.getWorkflow draft.id true = some stored ∧
      (draftStorage 3).tables.getWorkflow draft.id true = some row ∧
        ¬ retitling.Makes stored row ∧ ¬ describing.InEffect row := by
  have made : Authored (draftStorage 1).tables _ :=
    .step (s := draftStorage 0) draftOperations[0] .empty trivial
      ⟨by decide +kernel, by decide +kernel, by decide +kernel⟩
  have described : Authored (draftStorage 2).tables _ :=
    .step (s := draftStorage 1) draftOperations[1] made (List.mem_singleton.mpr rfl)
      ⟨by decide +kernel, by decide +kernel, by decide +kernel⟩
  obtain ⟨stored, hstored, hrow, -, hkept, -⟩ :=
    (patch_keeps_iff made).1 draft (List.mem_singleton.mpr rfl) describing _ (draftStorage 2) rfl
  obtain ⟨stored', hstored', hrow', -, hkept', hothers⟩ :=
    (patch_keeps_iff described).1 draft (List.mem_cons_self ..) retitling _ (draftStorage 3) rfl
  -- the copy has no description yet
  have hnone : draft.description ≠ some "Reviewed" := by simp [draft, Workflow.new]
  refine ⟨⟨stored, _, hstored, hrow, hkept.mpr ?_⟩, stored', _, hstored', hrow',
    fun hmakes => hnone ?_, fun held => hnone ?_⟩
  · obtain rfl : draft = stored := Option.some.inj hstored
    exact ⟨fun _ => rfl, fun _ => rfl, fun _ => rfl, fun _ => rfl, fun _ => rfl⟩
  · obtain rfl : { draft with description := some "Reviewed" } = stored' :=
      Option.some.inj hstored'
    exact (hkept'.mp hmakes).description rfl
  · have disjoint : retitling.Disjoint describing :=
      ⟨.inr rfl, .inl rfl, .inl rfl, .inl rfl, .inl rfl⟩
    exact ((hothers describing disjoint).mp held).description

/-- Both patches are accepted, and `describing` is not in effect any more. -/
theorem describing_is_lost :
    (∃ given, (Operation.update draft describing).run (draftStorage 1)
      = .ok given (draftStorage 2)) ∧
    (∃ given, (Operation.update draft retitling).run (draftStorage 2)
      = .ok given (draftStorage 3)) ∧
    (draftStorage 2).tables.workflows = [{ draft with description := some "Reviewed" }] ∧
    (draftStorage 3).tables.workflows = [{ draft with name := "Final" }] :=
  ⟨⟨_, rfl⟩, ⟨_, rfl⟩, rfl, rfl⟩

end Authoring

end TriggerFlow
