import TriggerFlow.Number.Digits
/-!
# Arguments

A command has `Parameters`: options, of which some are flags and the others take a value, and
possibly one positional argument.  An option is written `--name` or `-n`; its value is attached
(`--name=value`, `-nvalue`, `-n=value`) or is the next argument, unless that looks like an option.
Flags may share one hyphen.  After `--` everything is positional.

`Reading.step` reads arguments from left to right, and the first mistake counts.  A value that
stands in an argument of its own is only judged when the next option, flag or positional argument
begins, or at the end (`Reading.settle`); an argument that no command knows is reported before that.
-/

namespace TriggerFlow.CommandLine

/-- What is wrong with the arguments; `helpRequested` is no mistake, but ends the reading as one
does. -/
inductive UsageError where
  | helpRequested
  | commandMissing
  | unknownCommand
  | unknownArgument
  | parameterMissing
  | valueMissing
  | valueUnwanted
  | valueInvalid
  | repeated
deriving DecidableEq

/-! ### Parameters -/

/-- What a parameter takes: nothing (`help` and `flag`), a `text`, a `path`, which is a text that is
not empty, or a `count`, a number below `2 ^ 64`. -/
inductive Takes where
  | help
  | flag
  | text
  | path
  | count
deriving DecidableEq

/-- The value of a parameter; a flag has the value `given`. -/
inductive Value where
  | given
  | text (s : String)
  | count (n : Nat)
deriving DecidableEq

namespace Takes

/-- Whether a value has to follow. -/
def wantsValue : Takes → Bool
  | help => false
  | flag => false
  | text => true
  | path => true
  | count => true

/-- The value that a text stands for, or the mistake in it. -/
def read (s : String) : Takes → Except UsageError Value
  | help => .error .helpRequested
  | flag => .ok .given
  | text => .ok (.text s)
  | path => if s.isEmpty then .error .valueMissing else .ok (.text s)
  | count =>
    match Number.word64? s.toList with
    | some n => .ok (.count n)
    | none => .error .valueInvalid

end Takes

/-- A parameter, written `--name` or with its `letter`. -/
structure Parameter where
  name : String
  letter : Option Char
  takes : Takes

/-- The parameters that a command has. -/
structure Parameters where
  options : List Parameter
  positional : Option Parameter

namespace Parameters

def named? (ps : Parameters) (name : String) : Option Parameter :=
  ps.options.find? fun p => p.name == name

def lettered? (ps : Parameters) (letter : Char) : Option Parameter :=
  ps.options.find? fun p => p.letter == some letter

end Parameters

/-! ### Spellings -/

/-- What an argument looks like: `--`, `--name` and `--name=value`, `-abc`, or anything else. -/
inductive Spelling where
  | separator
  | long (name : String) (value : Option String)
  | letters (cs : List Char)
  | plain
deriving DecidableEq

namespace Spelling

/-- The spelling of an argument.  A single hyphen is `plain`. -/
def ofChars : List Char → Spelling
  | ['-', '-'] => separator
  | '-' :: '-' :: cs =>
    long (String.ofList (cs.takeWhile (· != '=')))
      (match cs.dropWhile (· != '=') with
        | [] => none
        | _ :: value => some (String.ofList value))
  | '-' :: c :: cs => letters (c :: cs)
  | _ => plain

def ofArgument (s : String) : Spelling := ofChars s.toList

end Spelling

/-! ### Reading -/

/-- The arguments read so far: `values` by the names of their parameters, in the order in which they
were judged, and a parameter that waits for its value, or for its value to be judged (`pending`).
`ended` is whether `--` has been read, and `placed` whether the positional argument has. -/
structure Reading where
  values : List (String × Value)
  pending : Option (Parameter × Option String)
  ended : Bool
  placed : Bool

namespace Reading

def start : Reading := ⟨[], none, false, false⟩

/-- Gives a parameter its value, or reports that it lacks one, has one already or does not take this
one, in this order. -/
def accept (r : Reading) (p : Parameter) (value : Option String) : Except UsageError Reading := do
  if p.takes.wantsValue && value.isNone then throw .valueMissing
  if r.values.any fun v => v.1 == p.name then throw .repeated
  let v ← p.takes.read (value.getD "")
  return { r with values := r.values ++ [(p.name, v)] }

/-- Judges the value that is `pending`. -/
def settle (r : Reading) : Except UsageError Reading :=
  match r.pending with
  | none => .ok r
  | some (p, value) => accept { r with pending := none } p value

/-- Reads a flag, or an option with its value attached, once the pending value is settled. -/
def enter (r : Reading) (p : Parameter) (value : Option String) : Except UsageError Reading := do
  (← r.settle).accept p value

/-- Leaves a parameter pending in place of the one before, which is settled. -/
def await (r : Reading) (p : Parameter) (value : Option String) : Except UsageError Reading := do
  return { (← r.settle) with pending := some (p, value) }

/-- Reads a positional argument; a second one, and any where the command has no `positional`, is
unknown. -/
def place (ps : Parameters) (r : Reading) (arg : String) : Except UsageError Reading :=
  match ps.positional with
  | some p =>
    if r.placed then .error .unknownArgument
    else ({ · with placed := true }) <$> r.await p (some arg)
  | none => .error .unknownArgument

/-- Reads the letters behind one hyphen: flags one by one, and at the first option the rest as its
value. -/
def letters (ps : Parameters) (r : Reading) : List Char → Except UsageError Reading
  | [] => .ok r
  | c :: cs =>
    match ps.lettered? c with
    | none => .error .unknownArgument
    | some p =>
      if p.takes.wantsValue then
        match cs with
        | [] => r.await p none
        | '=' :: value => r.enter p (some (String.ofList value))
        | value => r.enter p (some (String.ofList value))
      else do
        let r ← r.enter p none
        r.letters ps cs

/-- Reads one argument by its `Spelling`; once the options have ended it is positional in any case.
-/
def step (ps : Parameters) (r : Reading) (arg : String) : Except UsageError Reading :=
  if r.ended then r.place ps arg
  else
    match Spelling.ofArgument arg with
    | .separator => .ok { r with ended := true }
    | .long name value =>
      match ps.named? name with
      | none => .error .unknownArgument
      | some p =>
        match p.takes.wantsValue, value with
        | true, none => r.await p none
        | false, some _ => .error .valueUnwanted
        | _, _ => r.enter p value
    | .letters cs => r.letters ps cs
    | .plain =>
      match r.pending with
      | some (p, none) => .ok { r with pending := some (p, some arg) }
      | _ => r.place ps arg

end Reading

/-- The values that arguments give to parameters: `step` over the arguments, and `settle` at the
end. -/
def readArguments (ps : Parameters) (args : List String) :
    Except UsageError (List (String × Value)) := do
  let r ← args.foldlM (Reading.step ps) Reading.start
  return (← r.settle).values

end TriggerFlow.CommandLine
