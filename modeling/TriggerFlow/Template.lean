import TriggerFlow.Context.Loose
import TriggerFlow.Context.Path
import TriggerFlow.Text.Search
/-!
# Templates

A template is a text with placeholders: a dot path between double braces.  `Template.parse` cuts the
text into its parts and `Template.render` puts the values of a context in their place.  What is put
in is not looked through for placeholders again, and braces that are never closed stay as they are.

`Template.renderValue` does the same to every string in a JSON value.
-/

namespace TriggerFlow

namespace Template

/-- The mark before a placeholder; `closing` is the one after it. -/
def opening : List Char := ['\x7b', '\x7b']

def closing : List Char := ['\x7d', '\x7d']

/-- A part of a template: a `literal` stands for itself, a `placeholder` for the value at its path.
-/
inductive Part where
  | literal (text : List Char)
  | placeholder (path : List Char)
deriving DecidableEq

/-- The parts of a template, in order: up to the first `opening`, then up to the first `closing`
after it, and so on.  Without either mark the rest is one literal. -/
def parse (template : List Char) : List Part :=
  match _h : Text.breakOn opening template with
  | none => [.literal template]
  | some (before, after) =>
    match _h' : Text.breakOn closing after with
    | none => [.literal template]
    | some (path, rest) => .literal before :: .placeholder path :: parse rest
termination_by template.length
decreasing_by
  have := Text.length_after_lt (by decide) _h
  have := Text.length_after_lt (by decide) _h'
  omega

/-- What stands for a part in a context: the text of the value at the path, trimmed of white space,
or nothing where `Path.lookupChars` finds none. -/
def Part.render (context : Fields) : Part → List Char
  | literal text => text
  | placeholder path =>
    match Path.lookupChars context (Text.trimChars path) with
    | some v => v.text.toList
    | none => []

/-- The template with each part of `parse` rendered in a context. -/
def render (template : String) (context : Fields) : String :=
  String.ofList ((parse template.toList).flatMap (Part.render context))

mutual

/-- A JSON value with every string in it rendered as a template; keys stay as they are. -/
def renderValue (context : Fields) : Json → Json
  | .string s => .string (render s context)
  | .array items => .array (renderItems context items)
  | .object fields => .object (renderFields context fields)
  | v => v

/-- The items of an array, each by `renderValue`. -/
def renderItems (context : Fields) : List Json → List Json
  | [] => []
  | v :: vs => renderValue context v :: renderItems context vs

/-- The fields of an object, the value of each by `renderValue`. -/
def renderFields (context : Fields) : List (String × Json) → List (String × Json)
  | [] => []
  | (k, v) :: rest => (k, renderValue context v) :: renderFields context rest

end

end Template

end TriggerFlow
