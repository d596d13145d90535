import TriggerFlow.Proofs.Authoring.Calm
import TriggerFlow.Proofs.Authoring.Complaints
/-!
# Operations are decided by what is entered

An operation is decided by the complaints about what is entered (`DecidedBy`).  If there are any,
the author gets them all in the order of the fields, and the store is not touched.  If there are
none, the operation is done wherever the store is ready for it, and is refused for nothing else that
was entered.  In particular a word that passes the rules is read as the member of the vocabulary
that it stands for, although the rules and the readers have lists of their own
(`validation_is_exact`).
-/

namespace TriggerFlow.Authoring

variable {α : Type}

/-! ### Work that finds nothing wrong -/

/-- The work is never refused with `validation`. -/
def Blameless (work : Work α) : Prop :=
  ∀ s messages s', work s ≠ .error (.validation messages) s'

section

variable {β : Type}

theorem Blameless.bind {work : Work α} {next : α → Work β} (h : Blameless work)
    (hnext : ∀ a, Blameless (next a)) : Blameless (work >>= next) := by
  intro s messages s' hs
  rcases bind_eq_error_iff.mp hs with h₁ | ⟨a, s₁, -, h₂⟩
  · exact h _ _ _ h₁
  · exact hnext a _ _ _ h₂

theorem blameless_pure (a : α) : Blameless (pure a) := fun s messages s' hs => by simp at hs

theorem blameless_get : Blameless (MonadState.get : Work Storage) := fun s messages s' hs => by
  simp at hs

theorem blameless_access (a : Access α) : Blameless (access a) := by
  intro s messages s' hs
  obtain ⟨e, heq, -⟩ := access_eq_error hs
  cases heq

theorem blameless_requireNode (workflow : Workflow) (id : NodeId) (reason : String) :
    Blameless (requireNode workflow id reason) := by
  intro s messages s' hs
  unfold requireNode at hs
  split at hs
  · split at hs <;> simp at hs
  all_goals simp at hs

theorem blameless_requireSource (workflow : Workflow) (source : Option NodeId) (reason : String) :
    Blameless (source.forM fun id => requireNode workflow id reason) := by
  cases source with
  | none => exact blameless_pure _
  | some id => exact blameless_requireNode workflow id reason

variable [Vocabulary α] {text : Option String}

/-- A text that `IsWord` is parsed. -/
theorem blameless_parse {word : String} (h : IsWord α word) : Blameless (parse word : Work α) := by
  obtain ⟨a, rfl⟩ := h
  intro s messages s' hs
  rw [parse_eq_ok_iff.mpr ⟨rfl, rfl⟩] at hs
  cases hs

theorem blameless_parseOptional (h : ∀ word ∈ text, IsWord α word) :
    Blameless (parseOptional text : Work (Option α)) := by
  obtain ⟨o, ho⟩ := exists_map_of_words h
  intro s messages s' hs
  rw [parseOptional_eq_ok_iff.mpr ⟨ho, rfl⟩] at hs
  cases hs

theorem blameless_parseOr (h : ∀ word ∈ text, IsWord α word) (otherwise : α) :
    Blameless (parseOr text otherwise) :=
  (blameless_parseOptional h).bind fun _ => blameless_pure _

end

/-! ### Decisions -/

/-- Work is decided by the complaints about what was entered.  There are none exactly if what was
entered is `inOrder`. -/
structure DecidedBy (work : Work α) (ready : Storage → Prop) (inOrder : Prop)
    (complaints : List (Option String)) (answers : α → Prop) : Prop where
  silent_iff : (∀ c ∈ complaints, c = none) ↔ inOrder
  /-- In a store that is `ready`, nothing else is needed. -/
  done_iff : ∀ s, ready s → ((∃ a s', work s = .ok a s') ↔ inOrder)
  answered : ∀ s, ready s → ∀ a s', work s = .ok a s' → answers a
  /-- In any store, all complaints are made at once, and nothing is changed. -/
  refused : ¬ inOrder → ∀ s, work s = .error (.validation complaints.reduceOption) s
  /-- In any store, no other complaint is made. -/
  blameless : inOrder → Blameless work

section

variable {fields : List EnteredField} {complaints : List (Option String)} {work : Work α}
  {next : Unit → Work α} {ready : Storage → Prop} {inOrder : Prop} {answers : α → Prop}

/-- Work is `DecidedBy` its complaints if it is refused with all of them where something is wrong,
and is done where nothing is. -/
theorem DecidedBy.of_refused (silent_iff : (∀ c ∈ complaints, c = none) ↔ inOrder)
    (refused : ¬ inOrder → ∀ s, work s = .error (.validation complaints.reduceOption) s)
    (done : inOrder → ∀ s, ready s → ∃ a s', work s = .ok a s' ∧ answers a)
    (blameless : inOrder → Blameless work) :
    DecidedBy work ready inOrder complaints answers := by
  have inOrder_of_ok : ∀ s a s', work s = .ok a s' → inOrder := by
    intro s a s' hs
    by_contra hnot
    rw [refused hnot s] at hs
    cases hs
  refine ⟨silent_iff, fun s hs => ⟨fun ⟨a, s', h⟩ => inOrder_of_ok s a s' h, fun h => ?_⟩,
    fun s hs a s' h => ?_, refused, blameless⟩
  · obtain ⟨a, s', hdone, -⟩ := done h s hs
    exact ⟨a, s', hdone⟩
  · obtain ⟨a', s'', hdone, hanswers⟩ := done (inOrder_of_ok s a s' h) s hs
    -- there is only one answer
    rw [h] at hdone
    obtain ⟨rfl, -⟩ := EStateM.Result.ok.inj hdone
    exact hanswers

/-- Work that checks `fields` and goes on with `next` is `DecidedBy` the complaints that the fields
tell, if `next` finds nothing wrong. -/
theorem DecidedBy.of_told (told : Tells fields complaints)
    (silent_iff : (∀ c ∈ complaints, c = none) ↔ inOrder)
    (done : inOrder → EnteredField.check fields = .ok () → ∀ s, ready s →
      ∃ a s', (check fields >>= next) s = .ok a s' ∧ answers a)
    (blameless : inOrder → Blameless (next ())) :
    DecidedBy (check fields >>= next) ready inOrder complaints answers := by
  have checked : inOrder → EnteredField.check fields = .ok () := fun h =>
    told.check_of_silent (silent_iff.mpr h)
  refine .of_refused silent_iff (fun hnot s => ?_) (fun h => done h (checked h)) fun h => ?_
  · exact bind_of_error (told.check_of_not_silent (silent_iff.not.mpr hnot) s) next
  · intro s messages s' hs
    rw [bind_of_ok (check_eq_ok_iff.mpr ⟨checked h, rfl⟩) next] at hs
    exact blameless h _ _ _ hs

end

/-! ### Stores that are ready -/

/-- The store has no outages, and an identifier for a new workflow that no other has. -/
structure TakesWorkflow (s : Storage) : Prop where
  calm : s.outages = []
  fresh : ∀ w ∈ s.tables.workflows, w.id ≠ (s.ids.next .workflow).1

structure HoldsWorkflow (workflow : Workflow) (s : Storage) : Prop where
  calm : s.outages = []
  stored : ∃ w ∈ s.tables.workflows, w.id = workflow.id

structure HoldsNode (node : Node) (s : Storage) : Prop where
  calm : s.outages = []
  stored : ∃ n ∈ s.tables.nodes, n.id = node.id

/-- The store `HoldsWorkflow`, and the nodes that are to be connected are there. -/
structure HoldsEnds (workflow : Workflow) (data : ConnectionInput) (s : Storage) : Prop extends
    HoldsWorkflow workflow s where
  ends : ∀ id, data.source = some id ∨ data.target = some id → IsThere s.tables workflow id

/-! ### Workflows -/

theorem create_decided (data : WorkflowInput) (organization : OrganizationId) (user : UserId) :
    DecidedBy (create data organization user) TakesWorkflow data.Creatable
      (creationComplaints data)
      fun w => data.name = some w.name ∧ data.triggerType = some (Vocabulary.text w.triggerType) ∧
        Vocabulary.text w.status = data.status.getD "draft" := by
  refine .of_told (tells_workflowFields data) creationComplaints_silent_iff ?_ ?_
  · rintro ⟨⟨name, hname, -⟩, ⟨t, htype⟩, status⟩ checked s ⟨calm, fresh⟩
    obtain ⟨o, hstatus⟩ := exists_map_of_words status
    refine ⟨_, _, (create_eq_ok_iff calm).mpr
      ⟨checked, fresh, ⟨name, t, o, hname, htype, hstatus, rfl⟩, rfl⟩, hname, htype, ?_⟩
    rw [← hstatus]
    cases o <;> rfl
  · rintro ⟨⟨name, hname, -⟩, ⟨t, htype⟩, status⟩
    simp only [hname, htype]
    exact (blameless_parse ⟨t, rfl⟩).bind fun _ => (blameless_parseOr status _).bind fun _ =>
      blameless_get.bind fun _ => blameless_access _

theorem update_decided (workflow : Workflow) (data : WorkflowInput) :
    DecidedBy (update workflow data) (HoldsWorkflow workflow) data.Changeable
      (changeComplaints data)
      fun w => w.name = data.name.getD workflow.name ∧
        Vocabulary.text w.triggerType =
          data.triggerType.getD (Vocabulary.text workflow.triggerType) ∧
        Vocabulary.text w.status = data.status.getD (Vocabulary.text workflow.status) := by
  refine .of_told (tells_workflowPatchFields data) changeComplaints_silent_iff ?_ ?_
  · rintro ⟨-, triggerType, status⟩ checked s ⟨calm, hrow⟩
    obtain ⟨t, htype⟩ := exists_map_of_words triggerType
    obtain ⟨o, hstatus⟩ := exists_map_of_words status
    have hdone : ∃ w s', update workflow data s = .ok w s' := by
      rw [update, bind_of_ok ((check_eq_ok_iff (u := ())).mpr ⟨checked, rfl⟩),
        bind_of_ok (parseOr_of_map htype _ s), bind_of_ok (parseOr_of_map hstatus _ s)]
      simp only [access_eq_ok_iff]
      exact Storage.updateWorkflow_of_calm calm hrow
    obtain ⟨w, s', hdone⟩ := hdone
    obtain ⟨-, _, -, ⟨_, _, htype', hstatus', rfl⟩, -⟩ := update_eq_ok hdone
    exact ⟨_, s', hdone, rfl, htype', hstatus'⟩
  · rintro ⟨-, triggerType, status⟩
    exact (blameless_parseOr triggerType _).bind fun _ => (blameless_parseOr status _).bind fun _ =>
      blameless_access _

/-! ### Nodes -/

theorem createNode_decided (workflow : Workflow) (data : NodeInput) :
    DecidedBy (createNode workflow data) (HoldsWorkflow workflow) data.Creatable
      (nodeCreationComplaints data)
      fun n => data.nodeType = some (Vocabulary.text n.nodeType) := by
  refine .of_told (tells_nodeFields data) ?_ ?_ ?_
  · rw [nodeCreationComplaints, List.forall_mem_singleton,
      neededWord_eq_none_iff NodeType.isMissing_text]
    rfl
  · rintro ⟨t, htype⟩ checked s ⟨calm, hrow⟩
    exact ⟨_, _, (createNode_eq_ok_iff calm).mpr ⟨checked, hrow, ⟨t, htype, rfl⟩, rfl⟩, htype⟩
  · rintro ⟨t, htype⟩
    simp only [htype]
    exact (blameless_parse ⟨t, rfl⟩).bind fun _ => blameless_access _

theorem updateNode_decided (node : Node) (data : NodeInput) :
    DecidedBy (updateNode node data) (HoldsNode node) data.Changeable
      (nodeChangeComplaints data)
      fun n => Vocabulary.text n.nodeType =
        data.nodeType.getD (Vocabulary.text node.nodeType) := by
  refine .of_told (tells_nodePatchFields data) ?_ ?_ ?_
  · rw [nodeChangeComplaints, List.forall_mem_singleton, improper_eq_none_iff]
    rfl
  · rintro nodeType checked s ⟨calm, hrow⟩
    obtain ⟨o, htype⟩ := exists_map_of_words nodeType
    have hdone : ∃ n s', updateNode node data s = .ok n s' := by
      rw [updateNode, bind_of_ok ((check_eq_ok_iff (u := ())).mpr ⟨checked, rfl⟩),
        bind_of_ok (parseOr_of_map htype _ s)]
      simp only [access_eq_ok_iff]
      exact Storage.updateNode_of_calm calm hrow
    obtain ⟨n, s', hdone⟩ := hdone
    obtain ⟨_, -, ⟨_, htype', rfl⟩, -⟩ := updateNode_eq_ok hdone
    exact ⟨_, s', hdone, htype'⟩
  · intro nodeType
    exact (blameless_parseOr nodeType _).bind fun _ => blameless_access _

/-! ### Connections -/

theorem createConnection_decided (workflow : Workflow) (data : ConnectionInput) :
    DecidedBy (createConnection workflow data) (HoldsEnds workflow data) data.Creatable
      (connectionComplaints data)
      fun c => c.branch.map Vocabulary.text = data.conditionType := by
  have told : Tells (connectionFields data)
      [improper "condition_type" "one of: true, false" (IsWord ConditionType) data.conditionType] :=
    .cons (errorsUnder_oneOf rfl rfl) .nil
  cases htarget : data.target with
  | none =>
    -- whatever the branch is, the target is missing
    have hnot : ¬ data.Creatable := by
      rintro ⟨-, target, h⟩
      rw [htarget] at h
      cases h
    refine .of_refused (connectionComplaints_silent_iff data) (fun _ s => ?_)
      (fun h => absurd h hnot) fun h => absurd h hnot
    rw [createConnection, connectionComplaints, htarget, if_pos rfl]
    cases hbranch : improper "condition_type" "one of: true, false" (IsWord ConditionType)
        data.conditionType with
    | none =>
      rw [hbranch] at told
      have checked := told.check_of_silent (by simp)
      rw [bind_of_ok ((check_eq_ok_iff (u := ())).mpr ⟨checked, rfl⟩)]
      rfl
    | some message =>
      rw [hbranch] at told
      exact bind_of_error (told.check_of_not_silent (by simp) s) _
  | some target =>
    -- the branch is all that there can be complaints about
    have hcomplaints : connectionComplaints data = [improper "condition_type"
        "one of: true, false" (IsWord ConditionType) data.conditionType] := by
      rw [connectionComplaints, htarget, if_neg (by simp), Option.or_none]
    have silent_iff := connectionComplaints_silent_iff data
    rw [hcomplaints] at silent_iff ⊢
    refine .of_told told silent_iff ?_ ?_
    · rintro ⟨conditionType, -⟩ checked s ⟨⟨calm, hrow⟩, hthere⟩
      obtain ⟨o, ho⟩ := exists_map_of_words conditionType
      refine ⟨_, _, (createConnection_eq_ok_iff calm).mpr ⟨checked, hrow,
        fun id hid => hthere id (.inl hid),
        ⟨target, o, htarget, hthere target (.inr htarget), ho, rfl⟩, rfl⟩, ho⟩
    · rintro ⟨conditionType, -⟩
      simp only [htarget]
      exact (blameless_requireNode _ _ _).bind fun _ => (blameless_requireSource _ _ _).bind
        fun _ => (blameless_parseOptional conditionType).bind fun _ => blameless_access _

/-! ### All operations -/

/-- Each of the five operations is `DecidedBy` its complaints.  Authors are told of every field that
is not in order, once and in the order of the fields, and of no other; if there is none, the
operation is done wherever the store is ready, with a row that has the words entered. -/
theorem validation_is_exact :
    (∀ data organization user, DecidedBy (create data organization user) TakesWorkflow
      data.Creatable (creationComplaints data) fun w =>
        data.name = some w.name ∧ data.triggerType = some (Vocabulary.text w.triggerType) ∧
        Vocabulary.text w.status = data.status.getD "draft") ∧
    (∀ workflow data, DecidedBy (update workflow data) (HoldsWorkflow workflow)
      data.Changeable (changeComplaints data) fun w =>
        w.name = data.name.getD workflow.name ∧
        Vocabulary.text w.triggerType =
          data.triggerType.getD (Vocabulary.text workflow.triggerType) ∧
        Vocabulary.text w.status = data.status.getD (Vocabulary.text workflow.status)) ∧
    (∀ workflow data, DecidedBy (createNode workflow data) (HoldsWorkflow workflow)
      data.Creatable (nodeCreationComplaints data) fun n =>
        data.nodeType = some (Vocabulary.text n.nodeType)) ∧
    (∀ node data, DecidedBy (updateNode node data) (HoldsNode node)
      data.Changeable (nodeChangeComplaints data) fun n =>
        Vocabulary.text n.nodeType = data.nodeType.getD (Vocabulary.text node.nodeType)) ∧
    ∀ workflow data, DecidedBy (createConnection workflow data) (HoldsEnds workflow data)
      data.Creatable (connectionComplaints data) fun c =>
        c.branch.map Vocabulary.text = data.conditionType :=
  ⟨create_decided, update_decided, createNode_decided, updateNode_decided,
    createConnection_decided⟩

/-! ### Two entries -/

/-- The name has two characters, and four bytes. -/
def terseEntry : WorkflowInput := ⟨some "éé", none, some "booking.created", none, none⟩

/-- The name is blank, and the words are none. -/
def sloppyEntry : WorkflowInput :=
  ⟨some " \u2003", none, some "booking.create", none, some "Active"⟩

/-- The entry `terseEntry` is taken as a draft, and each field of `sloppyEntry` gets its complaint.
-/
theorem entries_judged :
    let s := Storage.fresh (.ofNames fun _ n => Uuid.ofHalves 0 n) default
    (∃ w s', create terseEntry Uuid.nil Uuid.nil s = .ok w s' ∧
      Vocabulary.text w.triggerType = "booking.created" ∧ Vocabulary.text w.status = "draft") ∧
    create sloppyEntry Uuid.nil Uuid.nil s = .error (.validation ["name is required",
      "trigger_type must be " ++ triggerTypeDemand,
      "status must be one of: active, inactive, draft"]) s := by
  intro s
  obtain ⟨hcreate, -⟩ := validation_is_exact
  have ready : TakesWorkflow s := ⟨rfl, List.forall_mem_nil _⟩
  constructor
  · have terse := hcreate terseEntry Uuid.nil Uuid.nil
    have creatable : terseEntry.Creatable :=
      ⟨⟨"éé", rfl, ⟨'é', List.mem_cons_self, rfl⟩, by decide, by decide⟩, ⟨.bookingCreated, rfl⟩,
        fun _ h => by cases h⟩
    obtain ⟨w, s', hdone⟩ := (terse.done_iff s ready).mpr creatable
    obtain ⟨-, htype, hstatus⟩ := terse.answered s ready w s' hdone
    exact ⟨w, s', hdone, (Option.some.inj htype).symm, hstatus⟩
  · have sloppy := hcreate sloppyEntry Uuid.nil Uuid.nil
    have hname : missing "name" sloppyEntry.name = some "name is required" :=
      if_pos (isMissing_iff.mp rfl)
    have htype : missing "trigger_type" sloppyEntry.triggerType = none :=
      missing_eq_none_iff.mpr (isMissing_iff.not.mp (Bool.eq_false_iff.mp rfl))
    -- the type is there but is no word of the vocabulary
    have htype' : improper "trigger_type" triggerTypeDemand (IsWord TriggerType)
        sloppyEntry.triggerType = some ("trigger_type must be " ++ triggerTypeDemand) :=
      if_neg fun h => absurd (Vocabulary.mem_words_iff.mpr (h _ rfl)) (by decide)
    have hstatus : improper "status" "one of: active, inactive, draft" (IsWord WorkflowStatus)
        sloppyEntry.status = some "status must be one of: active, inactive, draft" :=
      if_neg fun h => absurd (Vocabulary.mem_words_iff.mpr (h _ rfl)) (by decide)
    have hcomplaints : creationComplaints sloppyEntry = [some "name is required",
        some ("trigger_type must be " ++ triggerTypeDemand),
        some "status must be one of: active, inactive, draft"] := by
      rw [creationComplaints, hname, htype, htype', hstatus]
      rfl
    have refused := sloppy.refused (sloppy.silent_iff.not.mp (by simp [hcomplaints])) s
    rwa [hcomplaints] at refused

end TriggerFlow.Authoring
