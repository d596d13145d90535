import Mathlib.Tactic.ByContra
import TriggerFlow.Proofs.Builtin.Actions
import TriggerFlow.Proofs.CommandLine.Printing
import TriggerFlow.Proofs.Document.Runnable
/-!
# What a successful validation promises

The commands that validate and run a document put it into stores of their own, under different
identifiers, and share no result.  Still, a document that has been found valid is run to its end
(`run_of_validate`): that it is valid says that it is `Document.Accepted` and `Document.Runnable`,
which is seen from the document alone.
-/

namespace TriggerFlow

namespace Command

open Errand

variable {d : Document} {a : AuthoredDocument} {owner : Owner} {desk desk' : Desk}

/-! ### The document of a file -/

theorem document_eq_ok_iff {path : String} {content : Except String String} :
    document path content desk = .ok d desk' ↔
      content.toOption.bind Document.ofText? = some d ∧ desk' = desk := by
  unfold document
  cases content with
  | error reason => simp [Except.toOption]
  | ok text =>
    rw [Except.toOption, Option.bind_some]
    dsimp only
    cases Document.ofText? text <;> simp [eq_comm]

/-- A payload is an object, or is not given at all, and leaves `actionsKey` free. -/
def Unreserved (input : Option String) : Prop :=
  ∀ text, input = some text →
    ∃ fields, Json.ofText? text = some (.object fields) ∧ Fields.has actionsKey fields = false

theorem payload_of_unreserved {input : Option String} (h : Unreserved input) :
    ∃ fields, (∀ desk, payload input desk = .ok fields desk) ∧
      Fields.has actionsKey fields = false := by
  cases input with
  | none => exact ⟨[], fun _ => rfl, rfl⟩
  | some text =>
    obtain ⟨fields, htext, hfree⟩ := h text rfl
    refine ⟨fields, fun desk => ?_, hfree⟩
    rw [payload, htext]
    rfl

/-! ### Validating -/

variable {name : RowKind → Nat → Uuid} {clock : Timestamp} {lines : List String}
  {components : Graph → List (List Graph.Place)}

theorem validateDocument_of_refused {storage s : Storage} {e : DocumentError}
    (h : d.author owner.organization owner.user storage = .error e s) (lines : List String) :
    validateDocument d owner components ⟨storage, lines⟩ = .error (.document e) ⟨s, lines⟩ := by
  have hauthor : author d owner ⟨storage, lines⟩ = .error (.document e) ⟨s, lines⟩ := by
    rw [author, onStorage, h]
  exact bind_of_error hauthor _

/-- The work `validateDocument` ends well exactly if the graph that was made has no warnings. -/
theorem validateDocument_of_authored {storage s : Storage}
    (h : d.author owner.organization owner.user storage = .ok a s) (calm : s.outages = [])
    (lines : List String) :
    ∃ lines', validateDocument d owner components ⟨storage, lines⟩ =
      if (a.graph s).warnings Builtin.catalogue (components (a.graph s)) = [] then
        .ok () ⟨s, lines'⟩
      else .error .notRunnable ⟨s, lines'⟩ := by
  have hauthor : author d owner ⟨storage, lines⟩ = .ok a ⟨s, lines⟩ :=
    onStorage_eq_ok_iff.mpr ⟨s, h, rfl⟩
  set warnings := (a.graph s).warnings Builtin.catalogue (components (a.graph s))
  have hinspect : onStorage .authoring
      (Authoring.validateGraph Builtin.catalogue a.workflow components) ⟨s, lines⟩ =
        .ok warnings ⟨s, lines⟩ :=
    onStorage_eq_ok_iff.mpr ⟨s, Authoring.validateGraph_of_calm calm _ _ _, rfl⟩
  rw [validateDocument, bind_of_ok hauthor, bind_of_ok hinspect]
  by_cases hnone : warnings = []
  · obtain ⟨lines', hprint⟩ := ((prints_say "✅ Workflow is valid:").bind fun _ =>
      prints_describe a) ⟨s, lines⟩
    refine ⟨lines', ?_⟩
    rw [if_pos (List.isEmpty_iff.mpr hnone), if_pos hnone]
    exact hprint
  · -- the problems are listed before the failure
    obtain ⟨lines₁, hprint⟩ := prints_say
      ("⚠️  " ++ Number.decimal warnings.length ++ " problem(s) found:") ⟨s, lines⟩
    obtain ⟨lines₂, hlist⟩ := prints_list_forM (f := fun w => say ("   • " ++ w.message))
      (fun _ => prints_say _) warnings ⟨s, lines₁⟩
    refine ⟨lines₂, ?_⟩
    rw [if_neg (mt List.isEmpty_iff.mp hnone), if_neg hnone, bind_of_ok hprint, bind_of_ok hlist]
    rfl

/-- Under identifiers that differ, `validateDocument` ends well exactly if the document is `Valid`.
-/
theorem validateDocument_isOk_iff (distinct : IdSupply.Distinct name d.nodes.length)
    (lists : Graph.ListsComponents components) :
    (∃ desk', validateDocument d owner components ⟨.fresh (.ofNames name) clock, lines⟩ =
        .ok () desk') ↔
      d.Valid Builtin.catalogue := by
  constructor
  · rintro ⟨desk', h⟩
    cases hauthored : d.author owner.organization owner.user (.fresh (.ofNames name) clock) with
    | error e s =>
      rw [validateDocument_of_refused hauthored] at h
      simp at h
    | ok a s =>
      obtain ⟨haccepted, hdepicted⟩ := Document.depicted_of_author hauthored
      obtain ⟨lines', hends⟩ := validateDocument_of_authored hauthored hdepicted.calm lines
      rw [hends] at h
      -- a warning would have made the command fail
      have hnone : (a.graph s).warnings Builtin.catalogue (components (a.graph s)) = [] := by
        by_contra hsome
        rw [if_neg hsome] at h
        simp at h
      obtain ⟨hrunnable, hreached⟩ :=
        (hdepicted.warnings_eq_nil_iff distinct _ (lists _)).mp hnone
      exact ⟨haccepted, hrunnable, hreached⟩
  · rintro ⟨haccepted, hrunnable, hreached⟩
    obtain ⟨a, s, hauthored⟩ :=
      Document.author_of_accepted haccepted name clock owner.organization owner.user
    obtain ⟨-, hdepicted⟩ := Document.depicted_of_author hauthored
    obtain ⟨lines', hends⟩ := validateDocument_of_authored hauthored hdepicted.calm lines
    have hnone : (a.graph s).warnings Builtin.catalogue (components (a.graph s)) = [] :=
      (hdepicted.warnings_eq_nil_iff distinct _ (lists _)).mpr ⟨hrunnable, hreached⟩
    refine ⟨⟨s, lines'⟩, ?_⟩
    rw [hends, if_pos hnone]

/-! ### Running -/

variable {fields : Fields} {maxDepth : Option Nat}

/-- A document whose graph is `Runnable` is run, and its execution is stored as completed. -/
theorem runAuthored_of_runnable {s : Storage} (settings : RunSettings) (triggerType : String)
    (calm : s.outages = []) (unused : s.tables.executions = [])
    (runnable : (a.graph s).Runnable Builtin.catalogue)
    (room : (a.graph s).ids.length ≤ settings.maxDepth)
    (free : Fields.has actionsKey fields = false) (lines : List String) :
    ∃ desk' e, runAuthored settings a triggerType fields ⟨s, lines⟩ = .ok () desk' ∧
      desk'.storage.tables.executions = [e] ∧ e.status = .completed ∧ e.error = none := by
  obtain ⟨id, w, e, hexecute, hcalm, hcount, hfound, hstatus, herror⟩ :=
    Engine.execute_of_runnable ⟨Builtin.catalogue, settings.maxDepth⟩ a.workflow triggerType
      (w := World.ofStorage s) calm (by simp [World.ofStorage, unused])
      Builtin.reliable_catalogue runnable room free
  -- the row of the run is the only one
  have hone : w.storage.tables.executions = [e] := by
    have hlength : w.storage.tables.executions.length = s.tables.executions.length + 1 := hcount
    rw [unused] at hlength
    obtain ⟨e', he'⟩ := List.length_eq_one_iff.mp hlength
    have hmem : e ∈ w.storage.tables.executions := List.mem_of_find?_eq_some hfound
    rw [he', List.mem_singleton] at hmem
    rw [he', hmem]
  obtain ⟨before, hrun⟩ := runAuthored_of_executed hexecute hcalm hfound lines
  rw [if_neg (by rw [hstatus]; decide)] at hrun
  exact ⟨_, e, hrun, hone, hstatus, herror⟩

/-- A document that an author has put into a store is run there by `runAuthored`. -/
theorem runDocument_of_authored {storage s : Storage}
    (h : d.author owner.organization owner.user storage = .ok a s) (trigger : Option String)
    (fields : Fields) (maxDepth : Option Nat) (lines : List String) :
    ∃ lines', runDocument d owner trigger fields maxDepth ⟨storage, lines⟩ =
      runAuthored
        { RunSettings.default with maxDepth := maxDepth.getD RunSettings.default.maxDepth } a
        (trigger.getD (Vocabulary.text a.workflow.triggerType)) fields ⟨s, lines'⟩ := by
  have hauthor : author d owner ⟨storage, lines⟩ = .ok a ⟨s, lines⟩ :=
    onStorage_eq_ok_iff.mpr ⟨s, h, rfl⟩
  obtain ⟨lines₁, hdescribe⟩ := prints_describe a ⟨s, lines⟩
  obtain ⟨lines₂, hsay⟩ := prints_say "" ⟨s, lines₁⟩
  exact ⟨lines₂, by rw [runDocument, bind_of_ok hauthor, bind_of_ok hdescribe, bind_of_ok hsay]⟩

theorem runDocument_of_runnable (accepted : d.Accepted) (runnable : d.Runnable Builtin.catalogue)
    (distinct : IdSupply.Distinct name d.nodes.length)
    (room : d.nodes.length ≤ maxDepth.getD RunSettings.default.maxDepth)
    (free : Fields.has actionsKey fields = false) (owner : Owner) (trigger : Option String)
    (clock : Timestamp) (lines : List String) :
    ∃ desk' e, runDocument d owner trigger fields maxDepth ⟨.fresh (.ofNames name) clock, lines⟩
        = .ok () desk' ∧
      desk'.storage.tables.executions = [e] ∧ e.status = .completed ∧ e.error = none := by
  obtain ⟨a, s, hauthored⟩ :=
    Document.author_of_accepted accepted name clock owner.organization owner.user
  obtain ⟨-, hdepicted⟩ := Document.depicted_of_author hauthored
  obtain ⟨lines', hdocument⟩ := runDocument_of_authored hauthored trigger fields maxDepth lines
  rw [hdocument]
  exact runAuthored_of_runnable
    { RunSettings.default with maxDepth := maxDepth.getD RunSettings.default.maxDepth }
    (trigger.getD (Vocabulary.text a.workflow.triggerType)) hdepicted.calm hdepicted.executions
    ((hdepicted.runnable_iff distinct _).mpr runnable)
    ((hdepicted.length_ids_graph distinct).le.trans room) free lines'

/-! ### Whole commands -/

theorem failure_report_eq_none_iff {storage : Storage} {work : Errand Unit} :
    (report storage work).failure = none ↔ ∃ desk, work ⟨storage, []⟩ = .ok () desk := by
  unfold report
  cases hwork : work ⟨storage, []⟩ <;> simp

theorem failure_report_eq_some_iff {storage : Storage} {work : Errand Unit} {e : Failure} :
    (report storage work).failure = some e ↔ ∃ desk, work ⟨storage, []⟩ = .error e desk := by
  unfold report
  cases hwork : work ⟨storage, []⟩ <;> simp

section Files

variable {files : Files Id} {file text : String}

theorem document_of_read (read : files.read file = .ok text)
    (spelled : Document.ofText? text = some d) (desk : Desk) :
    document file (files.read file) desk = .ok d desk := by
  refine document_eq_ok_iff.mpr ⟨?_, rfl⟩
  rw [read]
  exact spelled

theorem validateFile_of_read (read : files.read file = .ok text)
    (spelled : Document.ofText? text = some d) (storage : Storage) (owner : Owner) :
    ∃ lines, validateFile file (files.read file) owner components ⟨storage, []⟩
      = validateDocument d owner components ⟨storage, lines⟩ := by
  obtain ⟨lines, hsay⟩ := prints_say ("🔍 Validating workflow: " ++ file) ⟨storage, []⟩
  refine ⟨lines, ?_⟩
  rw [validateFile, bind_of_ok hsay, bind_of_ok (document_of_read read spelled _)]

theorem runFile_of_read (read : files.read file = .ok text)
    (spelled : Document.ofText? text = some d) {input : Option String}
    (given : ∀ desk, payload input desk = .ok fields desk) (storage : Storage) (owner : Owner)
    (trigger : Option String) (maxDepth : Option Nat) :
    ∃ lines, runFile file (files.read file) owner trigger input maxDepth ⟨storage, []⟩
      = runDocument d owner trigger fields maxDepth ⟨storage, lines⟩ := by
  obtain ⟨lines, hsay⟩ := prints_say ("🚀 Loading workflow from: " ++ file) ⟨storage, []⟩
  refine ⟨lines, ?_⟩
  rw [runFile, bind_of_ok hsay, bind_of_ok (document_of_read read spelled _), bind_of_ok (given _)]

/-- The command `validate` succeeds exactly if the document is `Valid`. -/
theorem validate_succeeds_iff (read : files.read file = .ok text)
    (spelled : Document.ofText? text = some d) (distinct : IdSupply.Distinct name d.nodes.length)
    (clock : Timestamp) (owner : Owner) (lists : Graph.ListsComponents components) :
    (perform files (.fresh (.ofNames name) clock) owner (.validate file) components).failure
        = none ↔
      d.Valid Builtin.catalogue := by
  obtain ⟨lines, hfile⟩ :=
    validateFile_of_read read spelled (.fresh (.ofNames name) clock) owner
  apply failure_report_eq_none_iff.trans
  rw [hfile]
  exact validateDocument_isOk_iff distinct lists

/-- A document that `validate` has found valid under some identifiers is run to its end under any
others: on any free payload, and with room for its nodes, the command `run` succeeds and leaves one
row, `completed` and without an error. -/
theorem run_of_validate (read : files.read file = .ok text)
    (spelled : Document.ofText? text = some d) {name name' : RowKind → Nat → Uuid}
    (distinct : IdSupply.Distinct name d.nodes.length)
    (distinct' : IdSupply.Distinct name' d.nodes.length) (clock clock' : Timestamp)
    (owner owner' : Owner) (lists : Graph.ListsComponents components)
    (valid : (perform files (.fresh (.ofNames name) clock) owner (.validate file)
      components).failure = none)
    (trigger : Option String) {input : Option String} (unreserved : Unreserved input)
    {maxDepth : Option Nat} (room : d.nodes.length ≤ maxDepth.getD RunSettings.default.maxDepth) :
    (perform files (.fresh (.ofNames name') clock') owner'
        (.run file trigger input maxDepth)).failure = none ∧
      ∃ desk e, runFile file (files.read file) owner' trigger input maxDepth
          ⟨.fresh (.ofNames name') clock', []⟩ = .ok () desk ∧
        desk.storage.tables.executions = [e] ∧ e.status = .completed ∧ e.error = none := by
  obtain ⟨haccepted, hrunnable, -⟩ :=
    (validate_succeeds_iff read spelled distinct clock owner lists).mp valid
  obtain ⟨fields, hpayload, hfree⟩ := payload_of_unreserved unreserved
  obtain ⟨lines, hfile⟩ := runFile_of_read read spelled hpayload (.fresh (.ofNames name') clock')
    owner' trigger maxDepth
  -- what was found says nothing of identifiers, and so it holds under those of the run
  obtain ⟨desk, e, hrun, hrow⟩ := runDocument_of_runnable haccepted hrunnable distinct' room hfree
    owner' trigger clock' lines
  have hfile := hfile.trans hrun
  exact ⟨failure_report_eq_none_iff.mpr ⟨desk, hfile⟩, desk, e, hfile, hrow⟩

end Files

/-! ### A document to start from -/

def hello : Document where
  workflow := ⟨"hi", none, "event.created", none, none⟩
  nodes := [⟨"a", "action", some "log", none, []⟩]
  connections := [⟨none, "a", none, 0⟩]

/-- The text of `hello`. -/
def helloText : String :=
  "\x7b\"workflow\":\x7b\"name\":\"hi\",\"trigger_type\":\"event.created\"\x7d,"
    ++ "\"nodes\":[\x7b\"key\":\"a\",\"node_type\":\"action\",\"action_type\":\"log\"\x7d],"
    ++ "\"connections\":[\x7b\"to\":\"a\"\x7d]\x7d"

def helloJson : Json :=
  .object
    [("workflow", .object [("name", .string "hi"), ("trigger_type", .string "event.created")]),
     ("nodes", .array
       [.object [("key", .string "a"), ("node_type", .string "action"),
         ("action_type", .string "log")]]),
     ("connections", .array [.object [("to", .string "a")]])]

theorem ofText?_helloText : Document.ofText? helloText = some hello := by
  have hspelled : Json.selectText? Document.shape helloText = some helloJson := by cbv
  rw [Document.ofText?, hspelled]
  rfl

theorem valid_hello : hello.Valid Builtin.catalogue := by
  have hone : ∀ n ∈ hello.nodes, n = ⟨"a", "action", some "log", none, []⟩ := by
    simp [hello]
  have hleads : ∀ key key', ¬ hello.Leads key key' := by
    rintro key key' ⟨c, hc, hsource, -⟩
    obtain rfl : c = ⟨none, "a", none, 0⟩ := by simpa [hello] using hc
    simp at hsource
  refine ⟨⟨⟨by decide +kernel, ⟨.eventCreated, rfl⟩, none, rfl⟩, ?_, by decide +kernel, ?_⟩,
    ⟨⟨_, List.mem_singleton.mpr rfl, rfl⟩, ?_, ?_⟩, ?_⟩
  · intro n hn
    rw [hone n hn]
    exact ⟨by decide +kernel, .action, rfl⟩
  · intro c hc
    obtain rfl : c = ⟨none, "a", none, 0⟩ := by simpa [hello] using hc
    exact ⟨by decide +kernel, by simp, by decide +kernel, none, rfl⟩
  · intro n hn
    rw [hone n hn]
    exact fun _ => ⟨"log", Builtin.log, rfl, rfl, rfl⟩
  · intro key hback
    obtain ⟨key', -, hedge⟩ := Relation.TransGen.tail'_iff.mp hback
    exact hleads _ _ hedge
  · intro n hn _
    rw [hone n hn]
    exact ⟨_, List.mem_singleton.mpr rfl, rfl, .refl⟩

/-- A place where every file holds `hello`. -/
def helloFiles : Files Id := ⟨fun _ => .ok helloText, fun _ _ => .ok ()⟩

/-- An empty store that numbers its rows, those of one series apart from those of another. -/
def numbered (series : Nat) : Storage :=
  .fresh (.ofNames fun _ n => Uuid.ofHalves series n) default

/-- The document `hello` is found valid under some identifiers, and is run to its end under others.
-/
theorem hello_runs :
    (perform helloFiles (numbered 0) ⟨Uuid.nil, Uuid.nil⟩ (.validate "hello.json")).failure = none ∧
      (perform helloFiles (numbered 1) ⟨Uuid.nil, Uuid.nil⟩
        (.run "hello.json" none none (some 1))).failure = none := by
  have hread : helloFiles.read "hello.json" = .ok helloText := rfl
  have hdistinct : IdSupply.Distinct (fun _ n => Uuid.ofHalves 0 n) hello.nodes.length := by decide
  have hdistinct' : IdSupply.Distinct (fun _ n => Uuid.ofHalves 1 n) hello.nodes.length := by decide
  have hvalid := (validate_succeeds_iff hread ofText?_helloText hdistinct default
    ⟨Uuid.nil, Uuid.nil⟩ Graph.listsComponents_components).mpr valid_hello
  have hfree : Unreserved none := by simp [Unreserved]
  have hroom : hello.nodes.length ≤ (some 1).getD RunSettings.default.maxDepth := by decide
  have hrun := run_of_validate hread ofText?_helloText hdistinct hdistinct' default
    default ⟨Uuid.nil, Uuid.nil⟩ ⟨Uuid.nil, Uuid.nil⟩ Graph.listsComponents_components hvalid none
    hfree hroom
  exact ⟨hvalid, hrun.1⟩

end Command

end TriggerFlow
