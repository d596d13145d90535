import TriggerFlow.Proofs.CommandLine.Validation
import TriggerFlow.Proofs.Document.Faithful
/-!
# The verdict on a document

A document that can be read is found valid, or fails in one of two ways: `Document.author` refuses
it, or its graph is not runnable.  Which of the three happens is seen from the keys, types and
connections of the document (`validate_verdict`); neither identifiers nor the store have a part in
it.
-/

namespace TriggerFlow

namespace Command

open Errand

variable {d : Document} {files : Files Id} {file text : String} {name : RowKind → Nat → Uuid}

/-- The command `validate` succeeds exactly if an author accepts the document, it is
`Document.Runnable` and `Reaches` every node but triggers.  A document that is refused fails with
the refusal, and any other one that fails is `notRunnable`. -/
theorem validate_verdict (read : files.read file = .ok text)
    (spelled : Document.ofText? text = some d) (distinct : IdSupply.Distinct name d.nodes.length)
    (clock : Timestamp) (owner : Owner) {components : Graph → List (List Graph.Place)}
    (lists : Graph.ListsComponents components) :
    let storage := Storage.fresh (.ofNames name) clock
    let outcome := d.author owner.organization owner.user storage
    let failure := (perform files storage owner (.validate file) components).failure
    (failure = none ↔
      (∃ a s, outcome = .ok a s) ∧ d.Runnable Builtin.catalogue ∧
        ∀ n ∈ d.nodes, n.nodeType ≠ Vocabulary.text NodeType.trigger → d.Reaches n.key) ∧
    (∀ e s, outcome = .error e s → failure = some (.document e)) ∧
    ∀ a s, outcome = .ok a s → failure = none ∨ failure = some .notRunnable := by
  intro storage outcome failure
  obtain ⟨lines, hfile⟩ := validateFile_of_read read spelled storage owner
  refine ⟨?_, fun e s hrefused => ?_, fun a s hauthored => ?_⟩
  · apply (validate_succeeds_iff read spelled distinct clock owner lists).trans
    constructor
    · rintro ⟨haccepted, hrunnable, hreached⟩
      exact ⟨Document.author_of_accepted haccepted name clock _ _, hrunnable, hreached⟩
    · rintro ⟨⟨a, s, hauthored⟩, hrunnable, hreached⟩
      exact ⟨(Document.depicted_of_author hauthored).1, hrunnable, hreached⟩
  · apply failure_report_eq_some_iff.mpr
    rw [hfile]
    exact ⟨_, validateDocument_of_refused hrefused lines⟩
  · have hcalm := (Document.depicted_of_author hauthored).2.calm
    -- once the document is authored, only warnings can make the command fail
    obtain ⟨lines', hends⟩ := validateDocument_of_authored hauthored hcalm lines
    rw [← hfile] at hends
    by_cases hnone : (a.graph s).warnings Builtin.catalogue (components (a.graph s)) = []
    · rw [if_pos hnone] at hends
      exact .inl (failure_report_eq_none_iff.mpr ⟨_, hends⟩)
    · rw [if_neg hnone] at hends
      exact .inr (failure_report_eq_some_iff.mpr ⟨_, hends⟩)

/-- A document whose only node leads back to itself. -/
def circling : Document :=
  { hello with connections := hello.connections ++ [⟨some "a", "a", none, 0⟩] }

/-- The text of `circling`. -/
def circlingText : String :=
  "\x7b\"workflow\":\x7b\"name\":\"hi\",\"trigger_type\":\"event.created\"\x7d,"
    ++ "\"nodes\":[\x7b\"key\":\"a\",\"node_type\":\"action\",\"action_type\":\"log\"\x7d],"
    ++ "\"connections\":[\x7b\"to\":\"a\"\x7d,\x7b\"from\":\"a\",\"to\":\"a\"\x7d]\x7d"

def circlingJson : Json :=
  .object
    [("workflow", .object [("name", .string "hi"), ("trigger_type", .string "event.created")]),
     ("nodes", .array
       [.object [("key", .string "a"), ("node_type", .string "action"),
         ("action_type", .string "log")]]),
     ("connections", .array
       [.object [("to", .string "a")], .object [("from", .string "a"), ("to", .string "a")]])]

theorem ofText?_circlingText : Document.ofText? circlingText = some circling := by
  have hspelled : Json.selectText? Document.shape circlingText = some circlingJson := by cbv
  rw [Document.ofText?, hspelled]
  rfl

/-- The document `hello` is found valid; `circling` is accepted, and is not runnable. -/
theorem hello_passes_circling_fails :
    let owner : Owner := ⟨Uuid.nil, Uuid.nil⟩
    let circlingFiles : Files Id := ⟨fun _ => .ok circlingText, fun _ _ => .ok ()⟩
    (perform helloFiles (numbered 0) owner (.validate "hello.json")).failure = none ∧
      (perform circlingFiles (numbered 0) owner (.validate "circling.json")).failure
        = some .notRunnable := by
  intro owner circlingFiles
  have hdistinct : IdSupply.Distinct (fun _ n => Uuid.ofHalves 0 n) hello.nodes.length := by decide
  have hread : helloFiles.read "hello.json" = .ok helloText := rfl
  have hread' : circlingFiles.read "circling.json" = .ok circlingText := rfl
  obtain ⟨hhello, -, -⟩ := validate_verdict hread ofText?_helloText hdistinct default owner
    Graph.listsComponents_components
  obtain ⟨hcircling, -, hends⟩ := validate_verdict hread' ofText?_circlingText hdistinct default
    owner Graph.listsComponents_components
  obtain ⟨haccepted, hrunnable, hreached⟩ := valid_hello
  refine ⟨hhello.mpr ⟨Document.author_of_accepted haccepted _ _ _ _, hrunnable, hreached⟩, ?_⟩
  have hwell : circling.WellFormed := by decide +kernel
  obtain ⟨a, s, hauthored⟩ :=
    Document.author_of_accepted (Document.accepted_iff_wellFormed.mpr hwell)
      (fun _ n => Uuid.ofHalves 0 n) default owner.organization owner.user
  refine (hends a s hauthored).resolve_left fun hnone => ?_
  obtain ⟨-, hrunnable, -⟩ := hcircling.mp hnone
  exact hrunnable.acyclic "a" (.single ⟨⟨some "a", "a", none, 0⟩, by simp [circling], rfl, rfl⟩)

end Command

end TriggerFlow
