import TriggerFlow.Json.Printer
import TriggerFlow.Number.Decimal
import TriggerFlow.Text.Blank
/-!
# Loose comparison

Conditions compare values across types.  A value has a blank or filled state (`isBlank`), sometimes
a number (`toNumber`) and always a text (`text`).  `looseEq` and `looseCompare` are built on these
three views.
-/

namespace TriggerFlow.Json

/-- Whether a value is blank: `null`, `false`, a number equal to zero, or whatever is empty. -/
def isBlank : Json → Bool
  | null => true
  | bool b => !b
  | number n => n.toDouble.equal Double.zero
  | string s => s.isEmpty
  | array items => items.isEmpty
  | object fields => fields.isEmpty

/-- The number that a value is, or that its text spells (`Double.ofText?`), white space at both ends
apart. -/
def toNumber : Json → Option Double
  | number n => some n.toDouble
  | string s => Double.ofText? (Text.trimChars s.toList)
  | _ => none

/-- The text of a value: nothing for `null`, a string as it is, all else as `compact` writes it. -/
def text : Json → String
  | null => ""
  | string s => s
  | v => v.compact

/-- Equality by `toNumber` where both sides have a number, else by `text`. -/
def equalAsNumbers (a b : Json) : Bool :=
  match a.toNumber, b.toNumber with
  | some x, some y => x.equal y
  | _, _ => a.text == b.text

/-- Equality across types: `null` equals what `isBlank`, a boolean equals what is as filled as it
is, a number and a string are `equalAsNumbers`, two numbers are equal by value, and all else by
form. -/
def looseEq : Json → Json → Bool
  | null, v => v.isBlank
  | v, null => v.isBlank
  | bool b, v => b == !v.isBlank
  | v, bool b => b == !v.isBlank
  | number m, string s => equalAsNumbers (number m) (string s)
  | string s, number m => equalAsNumbers (string s) (number m)
  | number m, number n => m.toDouble.equal n.toDouble
  | a, b => a.equal b

/-- The order of two texts, character by character in code point order. -/
def compareText (a b : String) : Ordering := compareOfLessAndEq a b

/-- The order of two values that have numbers (`toNumber`), or else of two strings.  Numbers of
which one is no number have no order. -/
def looseCompare (a b : Json) : Option Ordering :=
  match a.toNumber, b.toNumber with
  | some x, some y => x.compare? y
  | _, _ =>
    match a, b with
    | string s, string t => some (compareText s t)
    | _, _ => none

end TriggerFlow.Json
