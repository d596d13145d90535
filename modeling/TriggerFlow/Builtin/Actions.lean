import TriggerFlow.Builtin.Triggers
import TriggerFlow.Catalogue
import TriggerFlow.Template
/-!
# The built-in actions

`log` renders a message, `set_variables` renders a map of values, and `delay` waits.  Waiting moves
the clock of the store and does nothing else (`Builtin.delayRun`); the other two have no effect
beside their result (`Action.ofFunction`).
-/

namespace TriggerFlow.Builtin

/-! ### Log -/

/-- The words that may be given as `level` of a message. -/
def levels : List String := ["debug", "info", "warn", "error"]

/-- What is wrong with the settings of `log`: a `message` must be a string, and a `level` one of
`levels`.  Both may be absent. -/
def logErrors (config : Config) : List String :=
  let message := match Fields.find? "message" config with
    | some v => if v.asString?.isSome then [] else ["message must be of type string"]
    | none => []
  let level := match Fields.find? "level" config with
    | some v =>
      if v.asString?.any fun l => levels.contains l then []
      else ["level must be one of: " ++ ", ".intercalate levels]
    | none => []
  message ++ level

/-- The `message`, rendered in the context, and its `level`, which is `info` if it is absent. -/
def logVerdict (config : Config) (context : Context) : Verdict :=
  let template := ((Fields.find? "message" config).bind Json.asString?).getD "(no message)"
  let level := ((Fields.find? "level" config).bind Json.asString?).getD "info"
  .done (.object [("message", .string (Template.render template context)),
                  ("level", .string level)])

def log : Action :=
  { id := "log"
    name := "Log message"
    description := "Logs a message rendered against the execution context"
    category := "debug"
    schema :=
      [⟨"message", .string, false,
        "Message text; \x7b\x7b path \x7d\x7d placeholders are filled from the context"⟩,
       ⟨"level", .string, false, "One of debug, info, warn, error (default info)"⟩]
    validate := logErrors
    run := Action.ofFunction logVerdict }

/-! ### Set variables -/

def setVariablesSchema : List ConfigField :=
  [⟨"values", .object, true,
    "Map of names to values; strings may use \x7b\x7b path \x7d\x7d placeholders"⟩]

/-- The `values` with every string rendered (`Template.renderValue`); they must be an object. -/
def setVariablesVerdict (config : Config) (context : Context) : Verdict :=
  match (Fields.find? "values" config).bind Json.asObject? with
  | some fields => .done (Template.renderValue context (.object fields))
  | none => .failed (.configuration "values must be an object")

def setVariables : Action :=
  { id := "set_variables"
    name := "Set variables"
    description := "Render the configured values against the context and store them"
    category := "transform"
    schema := setVariablesSchema
    validate := Action.schemaErrors setVariablesSchema
    run := Action.ofFunction setVariablesVerdict }

/-! ### Delay -/

/-- The longest delay in milliseconds; `delayErrors` refuses a longer one. -/
def maxDelayMs : Nat := 60000

/-- What is wrong with the settings of `delay`: `delay_ms` must be a whole number of at most
`maxDelayMs`. -/
def delayErrors (config : Config) : List String :=
  match Fields.find? "delay_ms" config with
  | none => ["delay_ms is required"]
  | some v =>
    if v.asWord64?.any fun ms => ms ≤ maxDelayMs then []
    else ["delay_ms must be a whole number between 0 and " ++ Number.decimal maxDelayMs]

/-- Time passes: `delay_ms` milliseconds by the clock of the store.  Any 64-bit number will do, also
one above `maxDelayMs`. -/
def delayRun (config : Config) (_ : Context) (s : Storage) : Verdict × Storage :=
  match (Fields.find? "delay_ms" config).bind Json.asWord64? with
  | some ms =>
    (.done (.object [("delayed_ms", .ofNat ms)]), { s with clock := s.clock.addMillis ms })
  | none => (.failed (.configuration "delay_ms must be a number"), s)

def delay : Action :=
  { id := "delay"
    name := "Delay"
    description := "Delay execution for specified milliseconds"
    category := "time"
    schema := [⟨"delay_ms", .number, true, ""⟩]
    validate := delayErrors
    run := delayRun }

/-! ### All of them -/

/-- The built-in triggers and actions, in the order in which `catalogue` registers them. -/
def capabilities : List Capability :=
  triggers.map .trigger ++ [.action log, .action setVariables, .action delay]

/-- The catalogue of the built-in triggers and actions: `capabilities`, registered one after the
other. -/
def catalogue : Catalogue := Catalogue.empty.registerAll capabilities

end TriggerFlow.Builtin
