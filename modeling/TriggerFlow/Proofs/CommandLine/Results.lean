import TriggerFlow.Proofs.CommandLine.Validation
import TriggerFlow.Proofs.Engine.Origins
/-!
# What a command shows of a run

The command that runs a document ends by printing the results that stand on the row of its run
(`run_ends`).  They should be those of the actions that have been called (`AccountsFor`); they are
if and only if the payload has brought none (`results_account_for_actions`).
-/

namespace TriggerFlow

namespace Command

open Errand

variable {d : Document} {a : AuthoredDocument} {owner : Owner} {s : Storage} {fields : Fields}

/-- After `runAuthored` the last lines are the `resultLines` of the row of the run. -/
theorem runAuthored_ends (settings : RunSettings) (a : AuthoredDocument) (triggerType : String)
    (fields : Fields) (calm : s.outages = [])
    (new : ∀ row ∈ s.tables.executions, row.id ≠ (s.ids.next .execution).1)
    (lines : List String) :
    ∃ before row, (leftBy (runAuthored settings a triggerType fields ⟨s, lines⟩)).lines =
        before ++ resultLines a (row.actions.getD []) ∧
      Origins fields (Engine.deeds ⟨Builtin.catalogue, settings.maxDepth⟩ a.workflow triggerType
        fields (World.ofStorage s)) row := by
  obtain ⟨hunrefused, id, w, hexecute, hcalm⟩ :=
    Engine.unrefused_of_considerate ⟨Builtin.catalogue, settings.maxDepth⟩ a.workflow triggerType
      fields (w := World.ofStorage s) calm new
      (Engine.considerate_of_reliable Builtin.reliable_catalogue _)
  obtain ⟨row, -, hrow, -, horigins, -⟩ := Engine.origins_of_execute hexecute hunrefused
  obtain ⟨before, hrun⟩ := runAuthored_of_executed hexecute hcalm hrow lines
  refine ⟨before, row, ?_, horigins⟩
  rw [hrun]
  split <;> rfl

theorem lines_report (storage : Storage) (work : Errand Unit) :
    (report storage work).lines = (leftBy (work ⟨storage, []⟩)).lines := by
  unfold report
  cases work ⟨storage, []⟩ <;> rfl

section Files

variable {files : Files Id} {file text : String} {name : RowKind → Nat → Uuid} {clock : Timestamp}

/-- The command `run` ends with the `resultLines` of the row of the run. -/
theorem run_ends (read : files.read file = .ok text) (spelled : Document.ofText? text = some d)
    (authored : d.author owner.organization owner.user (.fresh (.ofNames name) clock) = .ok a s)
    {input : Option String} (given : ∀ desk, payload input desk = .ok fields desk)
    (trigger : Option String) (maxDepth : Option Nat) :
    ∃ before row,
      (perform files (.fresh (.ofNames name) clock) owner (.run file trigger input maxDepth)).lines =
        before ++ resultLines a (row.actions.getD []) ∧
      Origins fields
        (Engine.deeds ⟨Builtin.catalogue, maxDepth.getD RunSettings.default.maxDepth⟩ a.workflow
          (trigger.getD (Vocabulary.text a.workflow.triggerType)) fields (World.ofStorage s))
        row := by
  obtain ⟨-, hdepicted⟩ := Document.depicted_of_author authored
  obtain ⟨lines, hfile⟩ := runFile_of_read read spelled given (.fresh (.ofNames name) clock) owner
    trigger maxDepth
  obtain ⟨lines', hdocument⟩ := runDocument_of_authored authored trigger fields maxDepth lines
  -- nobody has run anything in this store
  have hnew : ∀ row ∈ s.tables.executions, row.id ≠ (s.ids.next .execution).1 := by
    rw [hdepicted.executions]
    simp
  obtain ⟨before, row, hlines, horigins⟩ := runAuthored_ends
    { RunSettings.default with maxDepth := maxDepth.getD RunSettings.default.maxDepth } a
    (trigger.getD (Vocabulary.text a.workflow.triggerType)) fields hdepicted.calm hnew lines'
  refine ⟨before, row, ?_, horigins⟩
  change (report _ (runFile file (files.read file) owner trigger input maxDepth)).lines = _
  rw [lines_report, hfile, hdocument, hlines]

end Files

end Command

/-- If the store takes all that a run writes, the row `AccountsFor` its deeds exactly if not
`BringsResults payload`, and `Acted` are the nodes of the `actionCompleted` events.  A store without
outages takes all, if actions are considerate.  And the lines of the command `run` end with the
results of such a row. -/
theorem results_account_for_actions (payload : Fields) :
    (∀ (engine : Engine) (workflow : Workflow) (triggerType : String) (w : World),
      (∀ id w', engine.execute workflow triggerType payload w = .ok id w' →
        engine.Unrefused workflow triggerType payload w →
        ∃ row news, w'.storage.tables.getExecution id = some row ∧
          (row.AccountsFor (engine.deeds workflow triggerType payload w) ↔
            ¬ BringsResults payload) ∧
          w'.events = w.events ++ news ∧
          ∀ node, Acted (engine.deeds workflow triggerType payload w) node ↔
            ∃ t ms, .actionCompleted node t ms ∈ news.map Event.happening) ∧
      (w.storage.outages = [] →
        (∀ row ∈ w.storage.tables.executions, row.id ≠ (w.storage.ids.next .execution).1) →
        engine.Considerate (w.storage.ids.next .execution).1 →
        engine.Unrefused workflow triggerType payload w ∧
          ∃ id w', engine.execute workflow triggerType payload w = .ok id w')) ∧
    ∀ (files : Command.Files Id) (file text : String) (d : Document) (name : RowKind → Nat → Uuid)
        (clock : Timestamp) (owner : Command.Owner) (a : AuthoredDocument) (s : Storage)
        (trigger input : Option String) (maxDepth : Option Nat),
      files.read file = .ok text → Document.ofText? text = some d →
      d.author owner.organization owner.user (.fresh (.ofNames name) clock) = .ok a s →
      (∀ desk, Command.payload input desk = .ok payload desk) →
      ∃ (before : List String) (row : Execution),
        (Command.perform files (.fresh (.ofNames name) clock) owner
            (.run file trigger input maxDepth)).lines =
          before ++ Command.resultLines a (row.actions.getD []) ∧
        (row.AccountsFor
            (Engine.deeds ⟨Builtin.catalogue, maxDepth.getD RunSettings.default.maxDepth⟩
              a.workflow (trigger.getD (Vocabulary.text a.workflow.triggerType)) payload
              (World.ofStorage s)) ↔
          ¬ BringsResults payload) := by
  refine ⟨fun engine workflow triggerType w => ⟨?_, ?_⟩, ?_⟩
  · intro id w' hexecute unrefused
    obtain ⟨row, news, hrow, hevents, horigins, hacted⟩ :=
      Engine.origins_of_execute hexecute unrefused
    exact ⟨row, news, hrow, horigins.accountsFor_iff, hevents, hacted⟩
  · intro calm new considerate
    obtain ⟨hunrefused, id, w', hexecute, -⟩ :=
      Engine.unrefused_of_considerate engine workflow triggerType payload calm new considerate
    exact ⟨hunrefused, id, w', hexecute⟩
  · intro files file text d name clock owner a s trigger input maxDepth read spelled authored given
    obtain ⟨before, row, hlines, horigins⟩ :=
      Command.run_ends read spelled authored given trigger maxDepth
    exact ⟨before, row, hlines, horigins.accountsFor_iff⟩

namespace Engine

theorem considerate_noteEngine (id : ExecutionId) : noteEngine.Considerate id := by
  intro actionType action known config context s hruns
  have hmem : action ∈ [noteAction] := List.mem_of_find?_eq_some known
  obtain rfl := List.mem_singleton.mp hmem
  exact hruns

end Engine

/-- The row of `noteEngine` on a free payload accounts for its only action. -/
theorem noteAction_accounted :
    ∃ id w' row, Engine.noteEngine.execute Engine.noteWorkflow "event.created"
        [("name", .string "a")] (World.ofStorage Engine.noteStorage) = .ok id w' ∧
      w'.storage.tables.getExecution id = some row ∧
      row.AccountsFor (Engine.noteEngine.deeds Engine.noteWorkflow "event.created"
        [("name", .string "a")] (World.ofStorage Engine.noteStorage)) ∧
      Engine.noteNode.id.text ∈ Fields.keys (row.actions.getD []) := by
  have free : Fields.has actionsKey [("name", .string "a")] = false := by decide +kernel
  obtain ⟨honly, htakes⟩ := (results_account_for_actions [("name", .string "a")]).1
    Engine.noteEngine Engine.noteWorkflow "event.created" (World.ofStorage Engine.noteStorage)
  obtain ⟨hunrefused, id, w', hexecute⟩ :=
    htakes rfl (fun _ h => nomatch h) (Engine.considerate_noteEngine _)
  obtain ⟨row, -, hrow, haccounts, -⟩ := honly id w' hexecute hunrefused
  have haccounts := haccounts.mpr (not_bringsResults_of_free free)
  obtain ⟨context, hcalled⟩ := Engine.noteAction_calls free
  exact ⟨id, w', row, hexecute, hrow, haccounts,
    (haccounts _).mpr ⟨Engine.noteNode.id, ⟨context, _, hcalled⟩, rfl⟩⟩

def broughtText : String := "\x7b\"actions\": \x7b\"x\": \"y\"\x7d\x7d"

def broughtFields : Fields := [("actions", .object [("x", .string "y")])]

theorem payload_broughtText (desk : Desk) :
    Command.payload (some broughtText) desk = .ok broughtFields desk := by
  have htext : Json.ofText? broughtText = some (.object broughtFields) := by cbv
  rw [Command.payload, htext]
  rfl

theorem bringsResults_broughtFields : BringsResults broughtFields :=
  ⟨("x", .string "y"), [], rfl⟩

/-- The row of a run that is refused for `broughtFields` shows what the payload has brought, and so
does the command that runs a document, although no action has been called. -/
theorem brought_result_is_shown :
    (∃ id w' row, Engine.noteEngine.execute Engine.noteWorkflow "event.created" broughtFields
        (World.ofStorage Engine.noteStorage) = .ok id w' ∧
      w'.storage.tables.getExecution id = some row ∧
      "x" ∈ Fields.keys (row.actions.getD []) ∧
      ∀ node, ¬ Acted (Engine.noteEngine.deeds Engine.noteWorkflow "event.created" broughtFields
        (World.ofStorage Engine.noteStorage)) node) ∧
    ∃ before, (Command.perform Command.helloFiles (Command.numbered 0) ⟨Uuid.nil, Uuid.nil⟩
        (.run "hello.json" none (some broughtText) none)).lines =
      before ++ ["", "📤 Action results:", "   x: \"y\""] := by
  have hheld : Execution.heldIn broughtFields = [("x", .string "y")] := rfl
  constructor
  · obtain ⟨hunrefused, id, w', hexecute, -⟩ := Engine.unrefused_of_considerate Engine.noteEngine
      Engine.noteWorkflow "event.created" broughtFields
      (w := World.ofStorage Engine.noteStorage) rfl (fun _ h => nomatch h)
      (Engine.considerate_noteEngine _)
    obtain ⟨row, -, hrow, -, horigins, -⟩ := Engine.origins_of_execute hexecute hunrefused
    -- the payload stays the context of the refused run
    obtain ⟨hbrought, hnone⟩ := horigins.brought bringsResults_broughtFields
    refine ⟨id, w', row, hexecute, hrow, ?_, hnone⟩
    rw [hbrought, hheld]
    exact List.mem_singleton.mpr rfl
  · set owner : Command.Owner := ⟨Uuid.nil, Uuid.nil⟩
    have hread : Command.helloFiles.read "hello.json" = .ok Command.helloText := rfl
    obtain ⟨a, s, hauthored⟩ := Document.author_of_accepted Command.valid_hello.1
      (fun _ n => Uuid.ofHalves 0 n) default owner.organization owner.user
    obtain ⟨before, row, hlines, horigins⟩ := Command.run_ends hread Command.ofText?_helloText
      hauthored payload_broughtText none none
    obtain ⟨hbrought, -⟩ := horigins.brought bringsResults_broughtFields
    -- the key is no identifier of a node and is printed as it stands
    have hline : Command.resultLine a ("x", .string "y") = "   x: \"y\"" := by
      have hno_id : Uuid.ofText? "x" = none := by decide +kernel
      have hcompact : Json.compact (.string "y") = "\"y\"" := by decide +kernel
      rw [Command.resultLine, hno_id, hcompact]
      rfl
    rw [hbrought, hheld, Command.resultLines, List.map_singleton, hline] at hlines
    exact ⟨before, hlines⟩

end TriggerFlow
