import TriggerFlow.Store.Access
/-!
# Capabilities

A workflow starts at a trigger and is made of actions.  A `Trigger` only describes itself: the
variables that it puts into the context.  An `Action` has a schema for its settings, a check of them
(`Action.schemaErrors` is the usual one) and an effect.

Running an action is a function on the store in use: it may read it, change it or let time pass.
Its `Verdict` is a result, an error of its own, or a crash.
-/

namespace TriggerFlow

/-! ### Settings -/

/-- What a setting must be; `FieldType.accepts` says which values are. -/
inductive FieldType where
  | string
  | number
  | boolean
  | object
  | array
  | any
deriving DecidableEq

instance : Vocabulary FieldType where
  all := [.string, .number, .boolean, .object, .array, .any]
  noun := "field type"
  text
    | .string => "string"
    | .number => "number"
    | .boolean => "boolean"
    | .object => "object"
    | .array => "array"
    | .any => "any"
  ofText?
    | "string" => some .string
    | "number" => some .number
    | "boolean" => some .boolean
    | "object" => some .object
    | "array" => some .array
    | "any" => some .any
    | _ => none
  mem_all a := by cases a <;> simp
  ofText?_eq_some_iff {_ a} := by
    constructor
    · intro h
      split at h <;> cases h <;> rfl
    · rintro rfl
      cases a <;> rfl

namespace FieldType

/-- Whether a value is of the type: `any` accepts all, and the others those of one constructor of
`Json`. -/
def accepts : FieldType → Json → Bool
  | any, _ => true
  | string, .string _ => true
  | number, .number _ => true
  | boolean, .bool _ => true
  | object, .object _ => true
  | array, .array _ => true
  | _, _ => false

end FieldType

/-- A setting that an action understands; `ConfigField.error?` checks it. -/
structure ConfigField where
  name : String
  fieldType : FieldType
  required : Bool
  description : String

namespace ConfigField

def toJson (f : ConfigField) : Json :=
  .object
    [("name", .string f.name), ("field_type", Vocabulary.toJson f.fieldType),
     ("required", .bool f.required), ("description", .string f.description)]

open Record in
def reader : Reader ConfigField := do
  let name ← Record.required "name" Json.asString?
  let fieldType ← Record.required "field_type" Vocabulary.ofJson?
  let required ← Record.required "required" Json.asBool?
  let description ← Record.required "description" Json.asString?
  return { name, fieldType, required, description }

def ofJson? (v : Json) : Option ConfigField := Record.read reader v

/-- What is wrong with the value that `config` has for the setting, or with its absence.  A `null`
is as good as none. -/
def error? (f : ConfigField) (config : Config) : Option String :=
  match (Fields.find? f.name config).bind Json.notNull? with
  | none => if f.required then some (f.name ++ " is required") else none
  | some v =>
    if f.fieldType.accepts v then none
    else some (f.name ++ " must be of type " ++ Vocabulary.text f.fieldType)

end ConfigField

/-- A value that a trigger puts into the context, and the dot `path` under which it stands there. -/
structure TriggerVariable where
  path : String
  description : String

namespace TriggerVariable

def toJson (v : TriggerVariable) : Json :=
  .object [("path", .string v.path), ("description", .string v.description)]

open Record in
def reader : Reader TriggerVariable := do
  let path ← required "path" Json.asString?
  let description ← required "description" Json.asString?
  return { path, description }

def ofJson? (v : Json) : Option TriggerVariable := Record.read reader v

end TriggerVariable

/-! ### Triggers and actions -/

/-- What can start a workflow, with the variables that it `offers`. -/
structure Trigger where
  id : String
  name : String
  description : String
  category : String
  offers : List TriggerVariable

/-- The error that an action reports; `ActionError.message` is how it is told. -/
inductive ActionError where
  | configuration (reason : String)
  | executionFailed (reason : String)
deriving DecidableEq

namespace ActionError

def message : ActionError → String
  | configuration reason => "Configuration error: " ++ reason
  | executionFailed reason => "Execution failed: " ++ reason

end ActionError

/-- How running an action ends: with a `result`, with an error of its own, or not at all. -/
inductive Verdict where
  | done (result : Json)
  | failed (error : ActionError)
  /-- The action broke down, possibly with a message. -/
  | crashed (message : Option String)

/-- What a workflow can do: `validate` checks settings, and `run` does it. -/
structure Action where
  id : String
  name : String
  description : String
  category : String
  schema : List ConfigField
  /-- What is wrong with the settings; `[]` if they are valid. -/
  validate : Config → List String
  run : Config → Context → Storage → Verdict × Storage

/-- The `category` of a capability that names none. -/
def defaultCategory : String := "general"

namespace Action

/-- What `ConfigField.error?` says of the settings in a schema: every required one must be there,
and every one that is there must have its type. -/
def schemaErrors (schema : List ConfigField) (config : Config) : List String :=
  schema.filterMap fun f => f.error? config

/-- An action whose verdict is `f config context`, and which leaves the store as it is. -/
def ofFunction (f : Config → Context → Verdict) : Config → Context → Storage → Verdict × Storage :=
  fun config context s => (f config context, s)

end Action

/-- A `Trigger` or an `Action`; `Capability.info` is its entry in a catalogue. -/
inductive Capability where
  | trigger (t : Trigger)
  | action (a : Action)

/-- Which of the two a `Capability` is. -/
inductive CapabilityKind where
  | trigger
  | action
deriving DecidableEq

instance : Vocabulary CapabilityKind where
  all := [.trigger, .action]
  noun := "capability kind"
  text
    | .trigger => "trigger"
    | .action => "action"
  ofText?
    | "trigger" => some .trigger
    | "action" => some .action
    | _ => none
  mem_all a := by cases a <;> simp
  ofText?_eq_some_iff {_ a} := by
    constructor
    · intro h
      split at h <;> cases h <;> rfl
    · rintro rfl
      cases a <;> rfl

/-- The entry of a capability in a catalogue, with an empty `schema` for a trigger and without
offers for an action. -/
structure CapabilityInfo where
  id : String
  kind : CapabilityKind
  name : String
  description : String
  category : String
  schema : List ConfigField
  offers : List TriggerVariable

namespace CapabilityInfo

def toJson (i : CapabilityInfo) : Json :=
  .object
    [("id", .string i.id), ("kind", Vocabulary.toJson i.kind), ("name", .string i.name),
     ("description", .string i.description), ("category", .string i.category),
     ("config_schema", .array (i.schema.map ConfigField.toJson)),
     ("variables", .array (i.offers.map TriggerVariable.toJson))]

end CapabilityInfo

namespace Trigger

def info (t : Trigger) : CapabilityInfo :=
  { id := t.id, kind := .trigger, name := t.name, description := t.description,
    category := t.category, schema := [], offers := t.offers }

end Trigger

namespace Action

def info (a : Action) : CapabilityInfo :=
  { id := a.id, kind := .action, name := a.name, description := a.description,
    category := a.category, schema := a.schema, offers := [] }

end Action

namespace Capability

def id : Capability → String
  | trigger t => t.id
  | action a => a.id

def category : Capability → String
  | trigger t => t.category
  | action a => a.category

def info : Capability → CapabilityInfo
  | trigger t => t.info
  | action a => a.info

end Capability

end TriggerFlow
