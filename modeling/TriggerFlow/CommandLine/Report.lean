import TriggerFlow.Builtin.Actions
import TriggerFlow.CommandLine.Command
import TriggerFlow.Dispatch
import TriggerFlow.Document.Authored
import TriggerFlow.Document.Codec
import TriggerFlow.Event.Window
import TriggerFlow.Json.Printer
/-!
# What commands report

A command works at a `Desk`, on a store of its own, and prints lines with `say`.  It ends well or
with a `Failure`; what it printed before stays.  `Command.perform` is a whole command, given how
files are read and written.
-/

namespace TriggerFlow

/-- Why a command fails. -/
inductive Failure where
  | unreadable (path reason : String)
  | malformedDocument (path : String)
  | unwritable (reason : String)
  | malformedInput
  | inputNotObject
  | document (error : DocumentError)
  | store (error : StoreError)
  | authoring (error : AuthoringError)
  | vanished (execution : ExecutionId)
  | executionFailed
  | notRunnable
deriving DecidableEq

namespace Failure

def malformed : String := "the text is not JSON of the expected form"

/-- What is said of a failure, from the outermost circumstance to the cause. -/
def chain : Failure → List String
  | unreadable path reason => ["reading " ++ path, reason]
  | malformedDocument path => ["parsing " ++ path, malformed]
  | unwritable reason => [reason]
  | malformedInput => [malformed]
  | inputNotObject => ["Input must be a JSON object"]
  | document error => error.chain
  | store error => [error.message]
  | authoring error => [error.message]
  | vanished execution => ["Execution " ++ execution.text ++ " vanished"]
  | executionFailed => ["workflow execution failed"]
  | notRunnable => ["workflow is not runnable"]

end Failure

/-- Where a command works: its store, and the lines printed so far. -/
structure Desk where
  storage : Storage
  lines : List String

/-- The work of a command, which may end in a `Failure` and keeps the desk either way. -/
abbrev Errand (α : Type) := EStateM Failure Desk α

namespace Errand

def say (line : String) : Errand Unit := modify fun d => { d with lines := d.lines ++ [line] }

/-- Works on the store; a refusal `e` is the failure `failure e`. -/
def onStorage {ε α : Type} (failure : ε → Failure) (work : EStateM ε Storage α) :
    Errand α := fun d =>
  match work d.storage with
  | .ok a s => .ok a { d with storage := s }
  | .error e s => .error (failure e) { d with storage := s }

/-- Lets a run do something in the world `World.ofStorage` of the store, which holds no events yet,
and answers with the events it reports. -/
def onWorld {α : Type} (work : Effect α) : Errand (α × List Event) := fun d =>
  match work (World.ofStorage d.storage) with
  | .ok a w => .ok (a, w.events) { d with storage := w.storage }
  | .error e w => .error (.store e) { d with storage := w.storage }

end Errand

namespace Command

open Errand

/-- Whose the workflow of a command is. -/
structure Owner where
  organization : OrganizationId
  user : UserId

/-- The document in a file that has been read, if it has been and holds one. -/
def document (path : String) : Except String String → Errand Document
  | .error reason => throw (.unreadable path reason)
  | .ok content =>
    match Document.ofText? content with
    | some d => return d
    | none => throw (.malformedDocument path)

/-- The payload that is given as a text: `[]` for `none`, and refused unless it is an object. -/
def payload : Option String → Errand Fields
  | none => return []
  | some text =>
    match Json.ofText? text with
    | none => throw .malformedInput
    | some (.object fields) => return fields
    | some _ => throw .inputNotObject

/-- Puts a document into the store with `Document.author`. -/
def author (d : Document) (owner : Owner) : Errand AuthoredDocument :=
  onStorage .document (d.author owner.organization owner.user)

/-- Prints the name, the trigger and the status of a workflow, and how many nodes it has. -/
def describe (d : AuthoredDocument) : Errand Unit := do
  say ("📋 Workflow: " ++ d.workflow.name)
  say ("   Trigger: " ++ Vocabulary.text d.workflow.triggerType)
  say ("   Status: " ++ Vocabulary.text d.workflow.status)
  say ("   Nodes: " ++ Number.decimal d.nodes.length)

/-! ### Running -/

/-- The key of a node in a line about it, `?` for a node of another document. -/
def label (d : AuthoredDocument) (id : NodeId) : String := (d.keyOf? id).getD "?"

def milliseconds (ms : Nat) : String := Number.decimal ms ++ "ms"

/-- The line about a `Happening`; the node that is entered is indented by its depth. -/
def happeningLine (d : AuthoredDocument) : Happening → String
  | .executionStarted _ triggerType => "▶️  Execution started (" ++ triggerType ++ ")"
  | .nodeEntered node nodeType depth =>
    String.join (List.replicate depth "  ") ++ "⚡ " ++ label d node ++ " (" ++ nodeType ++ ")"
  | .actionCompleted node actionType ms =>
    "  ✅ " ++ label d node ++ " [" ++ actionType ++ "] completed in " ++ milliseconds ms
  | .conditionEvaluated node result =>
    "  🔀 " ++ label d node ++ " evaluated to " ++ (if result then "true" else "false")
  | .edgeSkipped source target =>
    "  ⏭️  skipped " ++ label d source ++ " -> " ++ label d target
  | .executionCompleted ms => "✨ Execution completed successfully in " ++ milliseconds ms
  | .executionFailed error ms =>
    "💥 Execution failed after " ++ milliseconds ms ++ ": " ++ error

/-- The line about an entry of `Execution.actions`; what is not the identifier of a node of this
document stands under its own name. -/
def resultLine (d : AuthoredDocument) (result : String × Json) : String :=
  "   " ++ (((Uuid.ofText? result.1).bind d.keyOf?).getD result.1) ++ ": " ++ result.2.compact

/-- Prints how a run ended, from its row: identifier, status, error and `Execution.actions`. -/
def summarize (d : AuthoredDocument) (e : Execution) : Errand Unit := do
  say ""
  say "📊 Execution Summary:"
  say ("   Execution ID: " ++ e.id.text)
  say ("   Status: " ++ Vocabulary.text e.status)
  e.error.forM fun error => say ("   Error: " ++ error)
  let results := e.actions.getD []
  unless results.isEmpty do
    say ""
    say "📤 Action results:"
    results.forM fun r => say (resultLine d r)

def sayLost (lost : Nat) : Errand Unit :=
  if 0 < lost then say ("  … " ++ Number.decimal lost ++ " early event(s) dropped") else return ()

/-- Prints what happened, as far as an `EventWindow` of some size shows it. -/
def narrate (size : Nat) (d : AuthoredDocument) (events : List Event) : Errand Unit := do
  sayLost (EventWindow.lost size events)
  (EventWindow.seen size events).forM fun e => say (happeningLine d e.happening)

/-- Runs a document that is in the store under the built-in catalogue, prints the events and the
summary of the row, and fails if the row is `failed`. -/
def runAuthored (settings : RunSettings) (d : AuthoredDocument) (triggerType : String)
    (payload : Fields) : Errand Unit := do
  let engine : Engine := ⟨Builtin.catalogue, settings.maxDepth⟩
  let (id, events) ← onWorld (engine.execute d.workflow triggerType payload)
  narrate settings.eventBufferSize d events
  match ← onStorage .store (Storage.getExecution id) with
  | none => throw (.vanished id)
  | some e =>
    summarize d e
    if e.status = .failed then throw .executionFailed

/-- Authors a document and runs it; without a trigger the workflow's own is reported. -/
def runDocument (d : Document) (owner : Owner) (trigger : Option String) (payload : Fields)
    (maxDepth : Option Nat) : Errand Unit := do
  let authored ← author d owner
  describe authored
  say ""
  runAuthored { RunSettings.default with maxDepth := maxDepth.getD RunSettings.default.maxDepth }
    authored (trigger.getD (Vocabulary.text authored.workflow.triggerType)) payload

/-! ### Validating -/

/-- Authors a document and prints the warnings, if there are any, of `Authoring.validateGraph` about
it, whose components are listed as `components` does it. -/
def validateDocument (d : Document) (owner : Owner)
    (components : Graph → List (List Graph.Place) := Graph.components) : Errand Unit := do
  let authored ← author d owner
  let warnings ← onStorage .authoring
    (Authoring.validateGraph Builtin.catalogue authored.workflow components)
  if warnings.isEmpty then
    say "✅ Workflow is valid:"
    describe authored
  else
    say ("⚠️  " ++ Number.decimal warnings.length ++ " problem(s) found:")
    warnings.forM fun w => say ("   • " ++ w.message)
    throw .notRunnable

/-! ### Listing -/

/-- The lines about a capability: its identifier and category, its description, its settings and
what it offers. -/
def capabilityLines (i : CapabilityInfo) : List String :=
  ["  • " ++ i.id ++ " (" ++ i.category ++ ")", "    " ++ i.description]
    ++ i.schema.map (fun f => "      - " ++ f.name ++ ": " ++ Vocabulary.text f.fieldType
        ++ (if f.required then ", required" else ""))
    ++ i.offers.map fun v => "      $ " ++ v.path

/-- The lines about the capabilities of one kind under `title`, and none where there are no such. -/
def sectionLines (title : String) (infos : List CapabilityInfo) : List String :=
  if infos.isEmpty then [] else "" :: title :: infos.flatMap capabilityLines

/-- The lines of a listing: triggers and then actions, restricted to `category` where one is given.
-/
def listing (c : Catalogue) (category : Option String) : List String :=
  "📦 Available capabilities:" :: sectionLines "Triggers:" (c.listTriggers category)
    ++ sectionLines "Actions:" (c.listActions category)

/-! ### Writing a first document -/

def sampleText : String := Document.sample.toJson.indented

def invitation (path : String) : List String :=
  ["✨ Created example workflow: " ++ path, "", "Run it with:",
   "  automate run --file " ++ path
     ++ " --input '\x7b\"booking\": \x7b\"id\": 7, \"status\": \"confirmed\"\x7d\x7d'"]

/-! ### Whole commands -/

/-- How files are read and written in a monad `m`; a refusal gives its reason. -/
structure Files (m : Type → Type) where
  read : String → m (Except String String)
  write : String → String → m (Except String Unit)

/-- What a command prints, why it failed if it did, and the time that passed in its store. -/
structure Report where
  lines : List String
  failure : Option Failure
  elapsedMs : Nat

/-- What is reported of some work that begins with the store `storage` and no lines. -/
def report (storage : Storage) (work : Errand Unit) : Report :=
  let elapsed (d : Desk) := storage.clock.millisSince d.storage.clock
  match work ⟨storage, []⟩ with
  | .ok () d => ⟨d.lines, none, elapsed d⟩
  | .error e d => ⟨d.lines, some e, elapsed d⟩

/-- Runs the document in a file whose content is `content`, with the payload of `input`; the payload
is read after the document. -/
def runFile (file : String) (content : Except String String) (owner : Owner)
    (trigger input : Option String) (maxDepth : Option Nat) : Errand Unit := do
  say ("🚀 Loading workflow from: " ++ file)
  let d ← document file content
  let fields ← payload input
  runDocument d owner trigger fields maxDepth

/-- Checks the document in a file whose content is `content`. -/
def validateFile (file : String) (content : Except String String) (owner : Owner)
    (components : Graph → List (List Graph.Place) := Graph.components) : Errand Unit := do
  say ("🔍 Validating workflow: " ++ file)
  let d ← document file content
  validateDocument d owner components

/-- Carries a command out on a store that is empty; only `run`, `validate` and `init` touch files.
-/
def perform {m : Type → Type} [Monad m] (files : Files m) (storage : Storage) (owner : Owner)
    (command : Command) (components : Graph → List (List Graph.Place) := Graph.components) :
    m Report :=
  match command with
  | run file trigger input maxDepth => do
    let content ← files.read file
    return report storage (runFile file content owner trigger input maxDepth)
  | validate file => do
    let content ← files.read file
    return report storage (validateFile file content owner components)
  | capabilities category =>
    return ⟨listing Builtin.catalogue category, none, 0⟩
  | init output => do
    match ← files.write output sampleText with
    | .ok () => return ⟨invitation output, none, 0⟩
    | .error reason => return ⟨[], some (.unwritable reason), 0⟩

end Command

end TriggerFlow
