import TriggerFlow.Json.Value
/-!
# Records as JSON values

A record is written as an object with one field per component.  `Record.read` reads it from an
object by the names of its fields, in any order, fields with other names being passed over, or from
an array that lists its components in order.  A `Reader` takes the components one after the other:

* `required` demands the component;
* `optional` reads null, and for an object also absence, as `none`;
* `defaulted` replaces a missing component, but does not accept null for it.
-/

namespace TriggerFlow.Record

/-- Where the components of a record come from: the fields of an object, or what is left of an
array. -/
inductive Source where
  | named (fields : Fields)
  | listed (items : List Json)

/-- A program that takes components out of a `Source`; `none` means that the value is no such
record. -/
abbrev Reader (α : Type) := StateT Source Option α

/-- The value of a component, if the record has it.  A `named` source is left as it was, and a
`listed` one loses its first item, whatever the name. -/
def component? (name : String) : Reader (Option Json)
  | .named fs => some (fs.find? name, .named fs)
  | .listed [] => some (none, .listed [])
  | .listed (v :: vs) => some (some v, .listed vs)

/-- The component `name`, which has to be there and to be accepted by `read`. -/
def required {α : Type} (name : String) (read : Json → Option α) : Reader α := do
  match ← component? name with
  | some v => StateT.lift (read v)
  | none => failure

/-- The component `name`, or `default` when it is missing: null is handed to `read` as any other
value. -/
def defaulted {α : Type} (name : String) (default : α) (read : Json → Option α) : Reader α := do
  match ← component? name with
  | some v => StateT.lift (read v)
  | none => return default

/-- Null is `some none`, and every other value what `read` makes of it. -/
def nullable {α : Type} (read : Json → Option α) : Json → Option (Option α)
  | .null => some none
  | v => (read v).map some

/-- A component that may be null: `defaulted name none` for an object, which may leave it out, and
`required name` for a list, which may not. -/
def optional {α : Type} (name : String) (read : Json → Option α) : Reader (Option α) := fun s =>
  match s with
  | .named _ => defaulted name none (nullable read) s
  | .listed _ => required name (nullable read) s

/-- Reads a record: an object by its names, and a list only if the reader uses it up. -/
def read {α : Type} (reader : Reader α) : Json → Option α
  | .object fs => (reader (.named fs)).map Prod.fst
  | .array items =>
    match reader (.listed items) with
    | some (a, .listed []) => some a
    | _ => none
  | _ => none

/-! ### Readers of components -/

/-- The name of a choice without data, `"s"` or `{"s": null}`. -/
def word : Json → Option String
  | .string s => some s
  | .object [(s, .null)] => some s
  | _ => none

def list {α : Type} (read : Json → Option α) : Json → Option (List α)
  | .array items => items.mapM read
  | _ => none

/-- A number as a double, `JsonNumber.toDouble`; integers are rounded to one. -/
def double : Json → Option Double
  | .number n => some n.toDouble
  | _ => none

/-- An integer `i` with `-2 ^ 31 ≤ i < 2 ^ 31`. -/
def int32 (v : Json) : Option Int := v.asInt? (-0x80000000) 0x7fffffff

end TriggerFlow.Record
