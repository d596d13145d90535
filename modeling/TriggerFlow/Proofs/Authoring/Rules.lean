import TriggerFlow.Authoring
/-!
# Fields that pass their rules

`EnteredField.check` accepts what is entered if and only if every field passes all of its rules
(`EnteredField.check_eq_ok_iff`), and what it takes to pass a rule is said rule by rule.  The rules
for the name of a new workflow ask for a `ProperName`.
-/

namespace TriggerFlow

namespace EnteredField

variable {field : String} {value : Option String} {rules : List Rule} {choices : List String}

theorem check_eq_ok_iff {fields : List EnteredField} :
    check fields = .ok () ↔ ∀ f ∈ fields, f.errors = [] := by
  rw [check, ← List.flatMap_eq_nil_iff]
  cases fields.flatMap errors <;> simp

theorem errorsUnder_required_eq_nil_iff :
    errorsUnder field value (.required :: rules) = [] ↔
      isMissing value = false ∧ errorsUnder field value rules = [] := by
  rw [errorsUnder]
  cases isMissing value <;> simp

/-- The rule `.length min max` passes a missing field, and a text whose length is within the bounds.
-/
theorem errorsUnder_length_eq_nil_iff {min max : Nat} :
    errorsUnder field value [.length min max] = [] ↔
      ∀ text ∈ value, min ≤ text.length ∧ text.length ≤ max := by
  cases value with
  | none => simp [errorsUnder]
  | some text => simp [errorsUnder]

/-- The rule `.oneOf choices` passes a missing field, and one of the words. -/
theorem errorsUnder_oneOf_eq_nil_iff :
    errorsUnder field value [.oneOf choices] = [] ↔ ∀ text ∈ value, text ∈ choices := by
  cases value with
  | none => simp [errorsUnder]
  | some text => simp [errorsUnder]

end EnteredField

/-! ### Words are no blank texts -/

theorem TriggerType.isMissing_text (t : TriggerType) :
    EnteredField.isMissing (some (Vocabulary.text t)) = false := by
  cases t <;> rfl

theorem NodeType.isMissing_text (t : NodeType) :
    EnteredField.isMissing (some (Vocabulary.text t)) = false := by
  cases t <;> rfl

/-! ### Names -/

/-- A name that is not `isMissing`, so that something can be seen in it, of 2 to 255 characters. -/
structure ProperName (name : String) : Prop where
  visible : EnteredField.isMissing (some name) = false
  length : 2 ≤ name.length ∧ name.length ≤ 255

instance (name : String) : Decidable (ProperName name) :=
  decidable_of_iff
    (EnteredField.isMissing (some name) = false ∧ 2 ≤ name.length ∧ name.length ≤ 255)
    ⟨fun ⟨visible, length⟩ => ⟨visible, length⟩, fun ⟨visible, length⟩ => ⟨visible, length⟩⟩

/-- The rules `.required` and `nameLength` together pass exactly the names that are proper. -/
theorem properName_iff {field name : String} :
    EnteredField.errorsUnder field (some name) [.required, Authoring.nameLength] = [] ↔
      ProperName name := by
  rw [EnteredField.errorsUnder_required_eq_nil_iff, Authoring.nameLength,
    EnteredField.errorsUnder_length_eq_nil_iff]
  constructor
  · rintro ⟨visible, length⟩
    exact ⟨visible, length name rfl⟩
  · rintro ⟨visible, length⟩
    refine ⟨visible, fun text htext => ?_⟩
    rwa [← Option.mem_some.mp htext]

end TriggerFlow
