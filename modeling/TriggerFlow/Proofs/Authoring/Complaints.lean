import Mathlib.Data.List.Forall2
import Mathlib.Data.List.ReduceOption
import Mathlib.Data.List.TakeWhile
import TriggerFlow.Proofs.Authoring.Effects
import TriggerFlow.Proofs.Authoring.Rules
/-!
# What authors are told about what they enter

There is one complaint at most about a field: that nothing can be seen in it although something must
be entered (`missing`), or that what is entered is not what it must be (`improper`).  Neither says
anything of rules, or of the order in which they are gone through.  For every operation there is a
list of complaints, with one place for each field, and the rules come to the same (`Tells`).
Nothing is said if what is entered is in order, and only then (`creationComplaints_silent_iff`, and
so on).
-/

namespace TriggerFlow

/-! ### What is in order -/

/-- A new workflow has a name in which something can be seen, of 2 to 255 characters, and the word
of a `TriggerType`; if it has a status, this is the word of a `WorkflowStatus`. -/
structure WorkflowInput.Creatable (data : WorkflowInput) : Prop where
  name : ∃ name, data.name = some name ∧ (∃ c ∈ name.toList, Text.isBlank c = false) ∧
    2 ≤ name.length ∧ name.length ≤ 255
  triggerType : ∃ t : TriggerType, data.triggerType = some (Vocabulary.text t)
  status : ∀ word ∈ data.status, ∃ st : WorkflowStatus, Vocabulary.text st = word

/-- The fields of a change may be left out, and are otherwise as for a `Creatable` one; but a name
may be blank. -/
structure WorkflowInput.Changeable (data : WorkflowInput) : Prop where
  name : ∀ name ∈ data.name, 2 ≤ name.length ∧ name.length ≤ 255
  triggerType : ∀ word ∈ data.triggerType, ∃ t : TriggerType, Vocabulary.text t = word
  status : ∀ word ∈ data.status, ∃ st : WorkflowStatus, Vocabulary.text st = word

/-- A new node has the word of a `NodeType`. -/
def NodeInput.Creatable (data : NodeInput) : Prop :=
  ∃ t : NodeType, data.nodeType = some (Vocabulary.text t)

/-- A change of a node has the word of a `NodeType`, or leaves it out. -/
def NodeInput.Changeable (data : NodeInput) : Prop :=
  ∀ word ∈ data.nodeType, ∃ t : NodeType, Vocabulary.text t = word

/-- A new connection has a target, and the word of a `ConditionType` if any. -/
structure ConnectionInput.Creatable (data : ConnectionInput) : Prop where
  conditionType : ∀ word ∈ data.conditionType, ∃ b : ConditionType, Vocabulary.text b = word
  target : ∃ target, data.target = some target

/-! ### Texts in which nothing can be seen -/

theorem Text.trimChars_eq_nil_iff {cs : List Char} :
    trimChars cs = [] ↔ ∀ c ∈ cs, isBlank c = true := by
  rw [trimChars, List.reverse_eq_nil_iff, List.dropWhile_eq_nil_iff]
  constructor
  · intro h c hc
    -- a character goes at the front, or else it is among those that go at the end
    rw [← List.takeWhile_append_dropWhile (p := isBlank) (l := cs), List.mem_append] at hc
    rcases hc with hc | hc
    · exact List.mem_takeWhile_imp hc
    · exact h c (List.mem_reverse.mpr hc)
  · intro h c hc
    exact h c ((List.dropWhile_sublist _).subset (List.mem_reverse.mp hc))

namespace Authoring

variable {α : Type} {field demand : String} {value : Option String}

def Unseen (value : Option String) : Prop :=
  ∀ text ∈ value, ∀ c ∈ text.toList, Text.isBlank c = true

instance (value : Option String) : Decidable (Unseen value) :=
  inferInstanceAs (Decidable (∀ text ∈ value, ∀ c ∈ text.toList, Text.isBlank c = true))

theorem isMissing_iff : EnteredField.isMissing value = true ↔ Unseen value := by
  cases value with
  | none => simp [EnteredField.isMissing, Unseen]
  | some text =>
    rw [EnteredField.isMissing, List.isEmpty_iff, Text.trimChars_eq_nil_iff]
    simp [Unseen]

theorem not_unseen_iff :
    ¬ Unseen value ↔ ∃ text, value = some text ∧ ∃ c ∈ text.toList, Text.isBlank c = false := by
  cases value with
  | none => simp [Unseen]
  | some text => simp [Unseen]

/-! ### Complaints -/

/-- The complaint `field is required` about what is `Unseen`. -/
def missing (field : String) (value : Option String) : Option String :=
  if Unseen value then some (field ++ " is required") else none

/-- The complaint `field must be demand` about a value that is there and not `proper`. -/
def improper (field demand : String) (proper : String → Prop) [DecidablePred proper]
    (value : Option String) : Option String :=
  if ∀ text ∈ value, proper text then none else some (field ++ " must be " ++ demand)

section

variable {proper : String → Prop} [DecidablePred proper]

theorem missing_eq_none_iff : missing field value = none ↔ ¬ Unseen value := by
  unfold missing
  split <;> simp_all

theorem improper_eq_none_iff :
    improper field demand proper value = none ↔ ∀ text ∈ value, proper text := by
  unfold improper
  split <;> simp_all

/-- A field that is needed gets neither `missing` nor `improper` exactly if something can be seen in
it and it is proper. -/
theorem needed_eq_none_iff :
    (missing field value).or (improper field demand proper value) = none ↔
      ∃ text, value = some text ∧ (∃ c ∈ text.toList, Text.isBlank c = false) ∧ proper text := by
  rw [Option.or_eq_none_iff, missing_eq_none_iff, improper_eq_none_iff, not_unseen_iff]
  constructor
  · rintro ⟨⟨text, rfl, seen⟩, hproper⟩
    exact ⟨text, rfl, seen, hproper text rfl⟩
  · rintro ⟨text, rfl, seen, hproper⟩
    exact ⟨⟨text, rfl, seen⟩, fun _ heq => Option.some.inj heq ▸ hproper⟩

end

/-- The text is the word of a member of the vocabulary `α`. -/
def IsWord (α : Type) [Vocabulary α] (text : String) : Prop := ∃ a : α, Vocabulary.text a = text

instance [Vocabulary α] : DecidablePred (IsWord α) := fun _ =>
  decidable_of_iff _ Vocabulary.mem_words_iff

theorem exists_map_of_words [Vocabulary α] (h : ∀ word ∈ value, IsWord α word) :
    ∃ o : Option α, o.map Vocabulary.text = value :=
  Vocabulary.exists_map_eq_iff.mpr fun word hword => Vocabulary.mem_words_iff.mpr (h word hword)

/-- As something can be seen in the words of a vocabulary, a field that needs one gets no complaint
exactly if it has one. -/
theorem neededWord_eq_none_iff [Vocabulary α]
    (seen : ∀ a : α, EnteredField.isMissing (some (Vocabulary.text a)) = false) :
    (missing field value).or (improper field demand (IsWord α) value) = none ↔
      ∃ a : α, value = some (Vocabulary.text a) := by
  rw [needed_eq_none_iff]
  constructor
  · rintro ⟨_, hvalue, -, a, rfl⟩
    exact ⟨a, hvalue⟩
  · rintro ⟨a, rfl⟩
    have hseen : ¬ Unseen (some (Vocabulary.text a)) := by
      rw [← isMissing_iff, seen]
      exact Bool.false_ne_true
    obtain ⟨text, htext, hc⟩ := not_unseen_iff.mp hseen
    exact ⟨text, htext, hc, a, Option.some.inj htext⟩

def IsWithin (min max : Nat) (text : String) : Prop := min ≤ text.length ∧ text.length ≤ max

instance (min max : Nat) : DecidablePred (IsWithin min max) := fun text =>
  inferInstanceAs (Decidable (min ≤ text.length ∧ text.length ≤ max))

/-! ### Complaints and rules -/

section

open EnteredField

variable {proper : String → Prop} [DecidablePred proper] {rules : List Rule}
  {complaint : Option String}

/-- A rule `.required` in front adds the complaint `missing`, which keeps the other rules silent. -/
theorem errorsUnder_required (h : errorsUnder field value rules = complaint.toList) :
    errorsUnder field value (.required :: rules) = ((missing field value).or complaint).toList := by
  rw [errorsUnder, missing]
  by_cases hunseen : Unseen value
  · rw [if_pos (isMissing_iff.mpr hunseen), if_pos hunseen, Option.some_or, Option.toList_some]
  · rw [if_neg (isMissing_iff.not.mpr hunseen), if_neg hunseen, Option.none_or, h]

/-- A rule that finds fault with the values that are not `proper` says what `improper` says. -/
theorem toList_improper {bad : String → Bool} {message : String}
    (hproper : ∀ text, bad text = false ↔ proper text)
    (hmessage : message = field ++ " must be " ++ demand) :
    (if value.any bad then [message] else []) = (improper field demand proper value).toList := by
  have hany : value.any bad = false ↔ ∀ text ∈ value, proper text := by
    cases value with
    | none => simp
    | some text => simp [hproper]
  rw [improper, ← hmessage]
  by_cases hall : ∀ text ∈ value, proper text
  · rw [if_pos hall, hany.mpr hall]
    rfl
  · rw [if_neg hall, (Bool.not_eq_false _).mp (hany.not.mpr hall)]
    rfl

theorem errorsUnder_length {min max : Nat}
    (hmessage : field ++ " must be between " ++ Number.decimal min ++ " and "
      ++ Number.decimal max ++ " characters" = field ++ " must be " ++ demand) :
    errorsUnder field value [.length min max] =
      (improper field demand (IsWithin min max) value).toList := by
  have hwithin : ∀ text : String,
      decide (text.length < min ∨ max < text.length) = false ↔ IsWithin min max text := by
    intro text
    rw [decide_eq_false_iff_not, IsWithin]
    omega
  rw [errorsUnder, errorsUnder, List.append_nil, toList_improper hwithin hmessage]

/-- A rule `.oneOf` with the words of a vocabulary says what `improper` says of its words. -/
theorem errorsUnder_oneOf [Vocabulary α] {choices : List String}
    (hchoices : choices = Vocabulary.words α)
    (hmessage : field ++ " must be one of: " ++ ", ".intercalate choices =
      field ++ " must be " ++ demand) :
    errorsUnder field value [.oneOf choices] = (improper field demand (IsWord α) value).toList := by
  have hword : ∀ text : String, (!choices.contains text) = false ↔ IsWord α text := by
    intro text
    rw [Bool.not_eq_false', List.contains_iff_mem, hchoices, Vocabulary.mem_words_iff, IsWord]
  rw [errorsUnder, errorsUnder, List.append_nil, toList_improper hword hmessage]

end

/-- The errors of `fields` by their rules are `complaints`, one place for each field. -/
def Tells (fields : List EnteredField) (complaints : List (Option String)) : Prop :=
  List.Forall₂ (fun f c => f.errors = c.toList) fields complaints

theorem reduceOption_eq_nil_iff {complaints : List (Option String)} :
    complaints.reduceOption = [] ↔ ∀ c ∈ complaints, c = none :=
  List.filterMap_eq_nil_iff

namespace Tells

variable {fields : List EnteredField} {complaints : List (Option String)}

theorem flatMap_errors (told : Tells fields complaints) :
    fields.flatMap EnteredField.errors = complaints.reduceOption := by
  induction told with
  | nil => rfl
  | @cons f c _ _ h _ ih =>
    rw [List.flatMap_cons, h, ih]
    cases c with
    | none => rw [List.reduceOption_cons_of_none, Option.toList_none, List.nil_append]
    | some message => rw [List.reduceOption_cons_of_some, Option.toList_some, List.singleton_append]

theorem check_of_silent (told : Tells fields complaints) (silent : ∀ c ∈ complaints, c = none) :
    EnteredField.check fields = .ok () := by
  rw [EnteredField.check, told.flatMap_errors, reduceOption_eq_nil_iff.mpr silent]

theorem check_of_not_silent (told : Tells fields complaints)
    (hnot : ¬ ∀ c ∈ complaints, c = none) (s : Storage) :
    check fields s = .error (.validation complaints.reduceOption) s := by
  rw [check, EnteredField.check, told.flatMap_errors]
  cases hcomplaints : complaints.reduceOption with
  | nil => exact absurd (reduceOption_eq_nil_iff.mp hcomplaints) hnot
  | cons => rfl

end Tells

/-! ### The complaints of operations -/

def triggerTypeDemand : String :=
  "one of: booking.created, booking.confirmed, booking.cancelled, booking.reminder, " ++
    "event.created, event.updated, event.deleted"

/-- What `create` says of a new workflow, one place for each field. -/
def creationComplaints (data : WorkflowInput) : List (Option String) :=
  [(missing "name" data.name).or
      (improper "name" "between 2 and 255 characters" (IsWithin 2 255) data.name),
   (missing "trigger_type" data.triggerType).or
      (improper "trigger_type" triggerTypeDemand (IsWord TriggerType) data.triggerType),
   improper "status" "one of: active, inactive, draft" (IsWord WorkflowStatus) data.status]

/-- What `update` says of a change of a workflow, one place for each field. -/
def changeComplaints (data : WorkflowInput) : List (Option String) :=
  [improper "name" "between 2 and 255 characters" (IsWithin 2 255) data.name,
   improper "trigger_type" triggerTypeDemand (IsWord TriggerType) data.triggerType,
   improper "status" "one of: active, inactive, draft" (IsWord WorkflowStatus) data.status]

theorem nameLength_message :
    "name" ++ " must be between " ++ Number.decimal 2 ++ " and " ++ Number.decimal 255
      ++ " characters" = "name" ++ " must be " ++ "between 2 and 255 characters" := by
  have hmin : Number.decimal 2 = "2" := by
    rw [Number.decimal, Number.digits, Number.digitsOnto]
    rfl
  have hmax : Number.decimal 255 = "255" := by
    -- one digit after the other
    rw [Number.decimal, Number.digits, Number.digitsOnto, Number.digitsOnto, Number.digitsOnto]
    rfl
  rw [hmin, hmax]
  rfl

theorem tells_workflowFields (data : WorkflowInput) :
    Tells (workflowFields data) (creationComplaints data) :=
  .cons (errorsUnder_required (errorsUnder_length nameLength_message)) <|
    .cons (errorsUnder_required (errorsUnder_oneOf rfl rfl)) <|
      .cons (errorsUnder_oneOf rfl rfl) .nil

theorem tells_workflowPatchFields (data : WorkflowInput) :
    Tells (workflowPatchFields data) (changeComplaints data) :=
  .cons (errorsUnder_length nameLength_message) <| .cons (errorsUnder_oneOf rfl rfl) <|
    .cons (errorsUnder_oneOf rfl rfl) .nil

theorem creationComplaints_silent_iff {data : WorkflowInput} :
    (∀ c ∈ creationComplaints data, c = none) ↔ data.Creatable := by
  simp only [creationComplaints, List.forall_mem_cons, improper_eq_none_iff,
    neededWord_eq_none_iff TriggerType.isMissing_text, needed_eq_none_iff]
  constructor
  · rintro ⟨name, triggerType, status, -⟩
    exact ⟨name, triggerType, status⟩
  · rintro ⟨name, triggerType, status⟩
    exact ⟨name, triggerType, status, List.forall_mem_nil _⟩

theorem changeComplaints_silent_iff {data : WorkflowInput} :
    (∀ c ∈ changeComplaints data, c = none) ↔ data.Changeable := by
  simp only [changeComplaints, List.forall_mem_cons, improper_eq_none_iff]
  constructor
  · rintro ⟨name, triggerType, status, -⟩
    exact ⟨name, triggerType, status⟩
  · rintro ⟨name, triggerType, status⟩
    exact ⟨name, triggerType, status, List.forall_mem_nil _⟩

/-- What `createNode` says of a new node. -/
def nodeCreationComplaints (data : NodeInput) : List (Option String) :=
  [(missing "node_type" data.nodeType).or
      (improper "node_type" "one of: trigger, action, condition" (IsWord NodeType) data.nodeType)]

/-- What `updateNode` says of a change of a node. -/
def nodeChangeComplaints (data : NodeInput) : List (Option String) :=
  [improper "node_type" "one of: trigger, action, condition" (IsWord NodeType) data.nodeType]

theorem tells_nodeFields (data : NodeInput) :
    Tells (nodeFields data) (nodeCreationComplaints data) :=
  .cons (errorsUnder_required (errorsUnder_oneOf rfl rfl)) .nil

theorem tells_nodePatchFields (data : NodeInput) :
    Tells (nodePatchFields data) (nodeChangeComplaints data) :=
  .cons (errorsUnder_oneOf rfl rfl) .nil

/-- What `createConnection` says: first of the branch, and of the target only where that is in
order. -/
def connectionComplaints (data : ConnectionInput) : List (Option String) :=
  [(improper "condition_type" "one of: true, false" (IsWord ConditionType) data.conditionType).or
      (if data.target = none then some "to_node is required" else none)]

theorem connectionComplaints_silent_iff (data : ConnectionInput) :
    (∀ c ∈ connectionComplaints data, c = none) ↔ data.Creatable := by
  have htarget : (if data.target = none then some "to_node is required" else none) = none ↔
      ∃ target, data.target = some target := by
    cases data.target <;> simp
  rw [connectionComplaints, List.forall_mem_singleton, Option.or_eq_none_iff, improper_eq_none_iff,
    htarget]
  exact ⟨fun ⟨conditionType, target⟩ => ⟨conditionType, target⟩,
    fun ⟨conditionType, target⟩ => ⟨conditionType, target⟩⟩

end Authoring

end TriggerFlow
