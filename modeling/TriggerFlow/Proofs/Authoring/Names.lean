import TriggerFlow.Proofs.Authoring.Patches
import TriggerFlow.Proofs.Authoring.Rules
/-!
# The names of workflows

An author who makes a workflow has to give it a `ProperName`.  An author who changes a workflow may
leave the name out, and so the rules for a change do not ask for one; they let a blank name pass as
well.  Every name that is ever stored is proper if and only if no change has brought in another
(`names_proper_iff`); as long as authors only use rows that have been handed out, this can only
be a name that is blank.
-/

namespace TriggerFlow.Authoring

open Storage

/-! ### Courses -/

/-- The states that tables pass through, the latest first, with the rows that are in hand then and
the operations that have succeeded.  Each operation obeys `rule`, given the rows in hand. -/
inductive Course (rule : Handles → Operation → Prop) :
    List Tables → Handles → List Operation → Prop
  | start : Course rule [Tables.empty] .empty []
  | runs {t : Tables} {ts h ops} (executions : List Execution)
      (course : Course rule (t :: ts) h ops) : Course rule ({ t with executions } :: t :: ts) h ops
  | accepted {s s' : Storage} {op : Operation} {ts h given ops}
      (course : Course rule (s.tables :: ts) h ops) (allowed : rule h op)
      (done : op.run s = .ok given s') :
      Course rule (s'.tables :: s.tables :: ts) (h.and given) (op :: ops)
  | refused {s s' : Storage} {op : Operation} {e : AuthoringError} {ts h ops}
      (course : Course rule (s.tables :: ts) h ops) (done : op.run s = .error e s') :
      Course rule (s'.tables :: s.tables :: ts) h ops

/-- The name that an operation writes: that of `data`, or else that of the row in hand. -/
def Operation.written? : Operation → Option String
  | create data _ _ => data.name
  | update workflow data => some (data.name.getD workflow.name)
  | _ => none

/-- The names of all rows, stored or in hand, have the property `P`. -/
structure Named (P : String → Prop) (t : Tables) (h : Handles) : Prop where
  rows : ∀ w ∈ t.workflows, P w.name
  hand : ∀ w ∈ h.workflows, P w.name

variable {s s' : Storage} {h given : Handles} {op : Operation} {P : String → Prop}

/-! ### One operation -/

/-- A workflow is made under the name that is entered, which is a `ProperName`. -/
theorem proper_of_create {data : WorkflowInput} {organization : OrganizationId} {user : UserId}
    {row : Workflow} (h : create data organization user s = .ok row s') :
    data.name = some row.name ∧ ProperName row.name := by
  obtain ⟨⟨hcheck, hname⟩, -⟩ := create_eq_ok h
  have hrules := EnteredField.check_eq_ok_iff.mp hcheck
    ⟨"name", data.name, [.required, nameLength]⟩ (List.mem_cons_self ..)
  rw [hname] at hrules
  exact ⟨hname, properName_iff.mp hrules⟩

theorem length_of_update {workflow row : Workflow} {data : WorkflowInput}
    (h : update workflow data s = .ok row s') :
    ∀ name ∈ data.name, 2 ≤ name.length ∧ name.length ≤ 255 := by
  have hrules := EnteredField.check_eq_ok_iff.mp (update_eq_ok h).1
    ⟨"name", data.name, [nameLength]⟩ (List.mem_cons_self ..)
  exact EnteredField.errorsUnder_length_eq_nil_iff.mp hrules

/-- If `P` holds of all names, and of the name that an operation writes, it holds of all names after
it. -/
theorem named_of_run (hnamed : Named P s.tables h) (hrun : op.run s = .ok given s')
    (hwritten : ∀ name ∈ op.written?, P name) : Named P s'.tables (h.and given) := by
  -- `Does` tells where rows come from, but not their names: these are taken from `hrun`
  have does := does_of_run hrun
  generalize s'.tables = t at does ⊢
  have hhand {given : Handles} (hgiven : ∀ w ∈ given.workflows, P w.name) :
      ∀ w ∈ (h.and given).workflows, P w.name :=
    List.forall_mem_append.mpr ⟨hnamed.hand, hgiven⟩
  have hnone : ∀ w ∈ h.workflows ++ [], P w.name := by
    rw [List.append_nil]
    exact hnamed.hand
  cases does with
  | look looking within =>
    exact ⟨hnamed.rows, hhand fun w hw => hnamed.rows w (within.workflows hw)⟩
  | @create data organization user row =>
    obtain ⟨w, hcreate, hgiven⟩ := answer_eq_ok hrun
    obtain rfl : w = row := by simpa [Handles.ofWorkflows] using hgiven
    have hrow : ∀ w' ∈ [w], P w'.name :=
      List.forall_mem_singleton.mpr (hwritten _ (proper_of_create hcreate).1)
    exact ⟨List.forall_mem_append.mpr ⟨hnamed.rows, hrow⟩, hhand hrow⟩
  | @update workflow data row =>
    obtain ⟨w, hupdate, hgiven⟩ := answer_eq_ok hrun
    obtain rfl : w = row := by simpa [Handles.ofWorkflows] using hgiven
    obtain ⟨_, -, hmakes, -⟩ := makes_of_update hupdate
    have hrow : P w.name := by
      rw [hmakes.name]
      exact hwritten _ rfl
    refine ⟨fun w' hw' => ?_, hhand (List.forall_mem_singleton.mpr hrow)⟩
    rcases Tables.mem_replaceFirst hw' with rfl | hw'
    · exact hrow
    · exact hnamed.rows w' hw'
  | @delete workflow row stored found row_eq =>
    refine ⟨fun w' hw' => ?_, hnone⟩
    rcases Tables.mem_replaceFirst hw' with rfl | hw'
    · rw [row_eq]
      exact hnamed.rows stored (List.mem_of_find?_eq_some found)
    · exact hnamed.rows w' hw'
  | hardDelete =>
    exact ⟨fun w hw => hnamed.rows w (List.mem_of_mem_filter hw), hnone⟩
  | _ => exact ⟨hnamed.rows, hnone⟩

/-- An operation that has succeeded writes a name with `P`, if proper names have it and changes
write no others. -/
theorem written_of_run (hrun : op.run s = .ok given s') (hcreate : ∀ name, ProperName name → P name)
    (hupdate : ∀ workflow data row, op = .update workflow data →
      update workflow data s = .ok row s' → P (data.name.getD workflow.name)) :
    ∀ name ∈ op.written?, P name := by
  cases op with
  | create data organization user =>
    obtain ⟨row, hmade, -⟩ := answer_eq_ok hrun
    obtain ⟨hname, hproper⟩ := proper_of_create hmade
    intro name hwritten
    obtain rfl : row.name = name := Option.some.inj (hname.symm.trans hwritten)
    exact hcreate _ hproper
  | update workflow data =>
    obtain ⟨row, hchanged, -⟩ := answer_eq_ok hrun
    intro name hwritten
    obtain rfl : data.name.getD workflow.name = name := Option.some.inj hwritten
    exact hupdate workflow data row rfl hchanged
  | _ => simp [Operation.written?]

/-! ### All of them -/

variable {rule : Handles → Operation → Prop} {states : List Tables} {ops : List Operation}

/-- If proper names have the property `P`, and if the changes in a course write names with `P` only,
all names have it at the end. -/
theorem named_of_course (course : Course rule states h ops)
    (hcreate : ∀ name, ProperName name → P name)
    (hupdate : ∀ s s' h workflow data row, .update workflow data ∈ ops →
      rule h (.update workflow data) → (∀ w ∈ h.workflows, P w.name) →
      update workflow data s = .ok row s' → P (data.name.getD workflow.name)) :
    (∀ t ∈ states, ∀ w ∈ t.workflows, P w.name) ∧ ∀ w ∈ h.workflows, P w.name := by
  -- induction on the course, with the rows of all its states and the handles given out so far
  induction course with
  | start => exact ⟨by simp [Tables.empty], by simp [Handles.empty]⟩
  | runs executions course ih =>
    obtain ⟨hrows, hhand⟩ := ih hupdate
    exact ⟨List.forall_mem_cons.mpr ⟨(List.forall_mem_cons.mp hrows).1, hrows⟩, hhand⟩
  | @accepted s s' op ts h given ops course allowed done ih =>
    obtain ⟨hrows, hhand⟩ := ih fun s s' h workflow data row hmem =>
      hupdate s s' h workflow data row (List.mem_cons_of_mem _ hmem)
    have hwritten : ∀ name ∈ op.written?, P name := by
      refine written_of_run done hcreate fun workflow data row hop hchanged => ?_
      subst hop
      exact hupdate s s' h workflow data row (List.mem_cons_self ..) allowed hhand hchanged
    obtain ⟨hrows', hhand'⟩ :=
      named_of_run ⟨(List.forall_mem_cons.mp hrows).1, hhand⟩ done hwritten
    exact ⟨List.forall_mem_cons.mpr ⟨hrows', hrows⟩, hhand'⟩
  | refused course done ih =>
    obtain ⟨hrows, hhand⟩ := ih hupdate
    rw [tables_of_refused done]
    exact ⟨List.forall_mem_cons.mpr ⟨(List.forall_mem_cons.mp hrows).1, hrows⟩, hhand⟩

theorem stored_of_course (course : Course rule states h ops) {workflow : Workflow}
    {data : WorkflowInput} (hmem : .update workflow data ∈ ops) :
    ∃ t ∈ states, ∃ w ∈ t.workflows, w.name = data.name.getD workflow.name := by
  induction course with
  | start => simp at hmem
  | runs executions course ih =>
    obtain ⟨t, ht, hw⟩ := ih hmem
    exact ⟨t, List.mem_cons_of_mem _ ht, hw⟩
  | @accepted s s' op ts h given ops course allowed done ih =>
    rcases List.mem_cons.mp hmem with rfl | hmem
    · obtain ⟨row, hupdate, -⟩ := answer_eq_ok done
      obtain ⟨_, -, hmakes, hfound⟩ := makes_of_update hupdate
      exact ⟨s'.tables, List.mem_cons_self .., row, List.mem_of_find?_eq_some hfound, hmakes.name⟩
    · obtain ⟨t, ht, hw⟩ := ih hmem
      exact ⟨t, List.mem_cons_of_mem _ ht, hw⟩
  | refused course done ih =>
    obtain ⟨t, ht, hw⟩ := ih hmem
    exact ⟨t, List.mem_cons_of_mem _ ht, hw⟩

/-- Along a course, all names that are ever stored are proper exactly if every change writes a
proper one.  If the `rule` lets authors use rows in hand only, all names have 2 to 255 characters,
and they are proper exactly if no change has brought in a name that `isMissing`, which is a blank
one. -/
theorem names_proper_iff (course : Course rule states h ops) :
    ((∀ t ∈ states, ∀ w ∈ t.workflows, ProperName w.name) ↔
      ∀ workflow data, .update workflow data ∈ ops →
        ProperName (data.name.getD workflow.name)) ∧
    ((∀ h op, rule h op → op.Held h) →
      (∀ t ∈ states, ∀ w ∈ t.workflows, 2 ≤ w.name.length ∧ w.name.length ≤ 255) ∧
      ((∀ t ∈ states, ∀ w ∈ t.workflows, ProperName w.name) ↔
        ∀ workflow data, .update workflow data ∈ ops →
          ∀ name ∈ data.name, EnteredField.isMissing (some name) = false)) := by
  have hstored (hproper : ∀ t ∈ states, ∀ w ∈ t.workflows, ProperName w.name)
      (workflow : Workflow) (data : WorkflowInput) (hmem : .update workflow data ∈ ops) :
      ProperName (data.name.getD workflow.name) := by
    obtain ⟨t, ht, w, hw, hname⟩ := stored_of_course course hmem
    rw [← hname]
    exact hproper t ht w hw
  refine ⟨⟨hstored, fun hwritten => ?_⟩, fun hheld => ⟨?_, ?_, fun hvisible => ?_⟩⟩
  · exact (named_of_course course (fun _ h => h)
      fun s s' h workflow data row hmem _ _ _ => hwritten workflow data hmem).1
  · refine (named_of_course (P := fun name => 2 ≤ name.length ∧ name.length ≤ 255) course
      (fun _ h => h.length) fun s s' h workflow data row _ hrule hhand hupdate => ?_).1
    -- the name is that of the copy, or has passed the rule
    cases hname : data.name with
    | none => exact hhand workflow (hheld _ _ hrule)
    | some name => exact length_of_update hupdate name hname
  · intro hproper workflow data hmem name hname
    have hname' := hstored hproper workflow data hmem
    rw [Option.mem_def.mp hname] at hname'
    exact hname'.visible
  · refine (named_of_course course (fun _ h => h)
      fun s s' h workflow data row hmem hrule hhand hupdate => ?_).1
    cases hname : data.name with
    | none => exact hhand workflow (hheld _ _ hrule)
    | some name =>
      exact ⟨hvisible workflow data hmem name hname, length_of_update hupdate name hname⟩

/-- A workflow that is made and then gets another name by `retitling` has a proper name at any time.
-/
theorem retitled_draft_proper :
    ∃ states h, Course (fun h op => op.Held h) states h
        [.update draft retitling, draftOperations[0]] ∧
      states.length = 3 ∧ ∀ t ∈ states, ∀ w ∈ t.workflows, ProperName w.name := by
  have made : Course (fun h op => op.Held h) [(draftStorage 1).tables, Tables.empty] _
      [draftOperations[0]] :=
    .accepted (s := draftStorage 0) .start trivial rfl
  have retitled : Course (fun h op => op.Held h) _ _
      [.update draft retitling, draftOperations[0]] :=
    .accepted (s := draftStorage 1) made (List.mem_singleton.mpr rfl) rfl
  obtain ⟨-, hheld⟩ := names_proper_iff retitled
  refine ⟨_, _, retitled, rfl, (hheld fun _ _ held => held).2.mpr ?_⟩
  -- the only change brings in a name that is not blank
  intro workflow data hmem name hname
  obtain ⟨rfl, rfl⟩ : workflow = draft ∧ data = retitling := by
    simpa [draftOperations] using hmem
  obtain rfl : "Final" = name := Option.some.inj hname
  decide

def blanking : WorkflowInput := ⟨some "  ", none, none, none, none⟩

/-- The patch `blanking` is accepted, and stores a name with which no workflow can be made. -/
theorem blank_name_stored :
    (∃ given, draftOperations[0].run (.fresh (.ofNames fun _ n => Uuid.ofHalves 0 n) default)
      = .ok given (draftStorage 1)) ∧
    (∃ given s', (Operation.update draft blanking).run (draftStorage 1) = .ok given s' ∧
      s'.tables.workflows = [{ draft with name := "  " }] ∧ ¬ ProperName "  ") ∧
    ∃ s', create { blanking with triggerType := some "event.created" } Uuid.nil Uuid.nil
      (draftStorage 1) = .error (.validation ["name is required"]) s' :=
  ⟨⟨_, rfl⟩, ⟨_, _, rfl, rfl, by decide⟩, _, rfl⟩

end TriggerFlow.Authoring
