import TriggerFlow.Store.Tables
import TriggerFlow.Text.Blank
/-!
# Rules for what is entered

What an editor sends is checked field by field before anything is written, and everything that is
wrong is reported at once (`EnteredField.check`).  A required field that is missing, or blank
(`EnteredField.isMissing`), is reported as such and by no other rule; a field that may be missing is
only checked if it is there.
-/

namespace TriggerFlow

/-- Why an operation of an author is refused; `AuthoringError.message` is how it is told. -/
inductive AuthoringError where
  | validation (errors : List String)
  | notFound (reason : String)
  | store (error : StoreError)
deriving DecidableEq

namespace AuthoringError

def message : AuthoringError → String
  | validation errors => ", ".intercalate errors
  | notFound reason => reason
  | store error => error.message

end AuthoringError

/-- What a field must comply with; `EnteredField.errorsUnder` says what is wrong if it does not. -/
inductive Rule where
  | required
  /-- The number of characters, from `min` to `max`. -/
  | length (min max : Nat)
  | oneOf (choices : List String)

/-- A field under its rules, with the `value` that was entered, if any. -/
structure EnteredField where
  name : String
  value : Option String
  rules : List Rule

namespace EnteredField

/-- Whether `value` is `none` or a text of nothing but white space. -/
def isMissing (value : Option String) : Bool :=
  match value with
  | none => true
  | some v => (Text.trimChars v.toList).isEmpty

/-- What is wrong with a value under a list of rules, in their order.  If a `required` value is
missing, the rules after it are not asked. -/
def errorsUnder (name : String) (value : Option String) : List Rule → List String
  | [] => []
  | .required :: rules =>
    if isMissing value then [name ++ " is required"] else errorsUnder name value rules
  | .length min max :: rules =>
    (if value.any fun v => decide (v.length < min ∨ max < v.length) then
      [name ++ " must be between " ++ Number.decimal min ++ " and " ++ Number.decimal max
        ++ " characters"]
    else []) ++ errorsUnder name value rules
  | .oneOf choices :: rules =>
    (if value.any fun v => !choices.contains v then
      [name ++ " must be one of: " ++ ", ".intercalate choices]
    else []) ++ errorsUnder name value rules

/-- What is wrong with a field: `errorsUnder f.name f.value f.rules`. -/
def errors (f : EnteredField) : List String := errorsUnder f.name f.value f.rules

/-- Succeeds if nothing is wrong with the fields, and else is refused with all `errors`, in the
order of the fields. -/
def check (fields : List EnteredField) : Except AuthoringError Unit :=
  match fields.flatMap errors with
  | [] => .ok ()
  | es => .error (.validation es)

end EnteredField

end TriggerFlow
