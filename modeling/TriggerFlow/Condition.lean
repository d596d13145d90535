import TriggerFlow.Context.Loose
import TriggerFlow.Context.Path
import TriggerFlow.Text.Search
/-!
# Conditions

A condition is configured by a `field`, an `operator` and a `value`: the value at the dot path
`field` of the context is held against `value` (`Condition.holds`).  Evaluation never fails: without
one of the three, or with an operator that is none, the condition does not hold
(`Condition.evaluate`).
-/

namespace TriggerFlow

/-- The comparison that a condition makes; `Operator.apply` is what it means. -/
inductive Operator where
  | equals
  | notEquals
  | contains
  | greaterThan
  | lessThan
  | isEmpty
  | isNotEmpty
deriving DecidableEq

namespace Operator

def all : List Operator :=
  [equals, notEquals, contains, greaterThan, lessThan, isEmpty, isNotEmpty]

/-- The word for an operator; `ofText?` reads it. -/
def text : Operator → String
  | equals => "equals"
  | notEquals => "not_equals"
  | contains => "contains"
  | greaterThan => "greater_than"
  | lessThan => "less_than"
  | isEmpty => "is_empty"
  | isNotEmpty => "is_not_empty"

/-- The operator whose `text` is `s`, if there is one. -/
def ofText? (s : String) : Option Operator := all.find? fun o => o.text = s

/-- Whether the comparison holds between the value found and the value expected.  Equality is
`looseEq`, order is `looseCompare`, `contains` compares texts, and the last two only look at
`actual`. -/
def apply (o : Operator) (actual expected : Json) : Bool :=
  match o with
  | equals => actual.looseEq expected
  | notEquals => !actual.looseEq expected
  | contains => Text.contains actual.text expected.text
  | greaterThan => actual.looseCompare expected == some .gt
  | lessThan => actual.looseCompare expected == some .lt
  | isEmpty => actual.isBlank
  | isNotEmpty => !actual.isBlank

end Operator

/-- A comparison of the value at a dot path with a fixed one, as `ofConfig?` reads it. -/
structure Condition where
  field : String
  operator : Operator
  value : Json

namespace Condition

/-- The condition that a configuration describes: `field` and `operator` must be texts, and `value`
must be there. -/
def ofConfig? (config : Fields) : Option Condition := do
  let field ← (Fields.find? "field" config).bind Json.asString?
  let operator ← ((Fields.find? "operator" config).bind Json.asString?).bind Operator.ofText?
  let value ← Fields.find? "value" config
  return { field, operator, value }

/-- Whether the condition holds in a context; where `Path.lookup` finds nothing, `null` is compared.
-/
def holds (c : Condition) (context : Fields) : Bool :=
  c.operator.apply ((Path.lookup context c.field).getD .null) c.value

/-- Whether the configured condition holds; if `ofConfig?` reads none, it does not. -/
def evaluate (config context : Fields) : Bool :=
  match ofConfig? config with
  | some c => c.holds context
  | none => false

end Condition

end TriggerFlow
