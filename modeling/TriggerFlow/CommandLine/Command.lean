import TriggerFlow.CommandLine.Arguments
/-!
# Commands

The commands run a document, check one, list what is built in, and write a first document.
`Command.ofArguments` reads the first argument as the name of a command (`Command.named?`) and the
others by its parameters.
-/

namespace TriggerFlow

/-- What the command line is asked to do: `run` the document of a file with a trigger and a payload,
`validate` one, list the `capabilities`, possibly of one category, or write a first document
(`init`). -/
inductive Command where
  | run (file : String) (trigger input : Option String) (maxDepth : Option Nat)
  | validate (file : String)
  | capabilities (category : Option String)
  | init (output : String)
deriving DecidableEq

namespace Command

open CommandLine

/-- The parameter `--help` that every command has. -/
def help : Parameter := ⟨"help", some 'h', .help⟩

def runParameters : Parameters :=
  ⟨[⟨"file", some 'f', .path⟩, ⟨"trigger", some 't', .text⟩, ⟨"input", some 'i', .text⟩,
    ⟨"verbose", some 'v', .flag⟩, ⟨"max-depth", none, .count⟩, help], none⟩

def validateParameters : Parameters := ⟨[help], some ⟨"file", none, .path⟩⟩

def capabilitiesParameters : Parameters := ⟨[⟨"category", some 'c', .text⟩, help], none⟩

def initParameters : Parameters := ⟨[⟨"output", some 'o', .path⟩, help], none⟩

def text? (values : List (String × Value)) (name : String) : Option String :=
  match values.lookup name with
  | some (.text s) => some s
  | _ => none

def count? (values : List (String × Value)) (name : String) : Option Nat :=
  match values.lookup name with
  | some (.count n) => some n
  | _ => none

/-- The text given for a parameter; `parameterMissing` where there is none. -/
def text (values : List (String × Value)) (name : String) : Except UsageError String :=
  match text? values name with
  | some s => .ok s
  | none => .error .parameterMissing

def defaultOutput : String := "workflow.json"

/-- How the command of a name reads the arguments that follow. -/
def named? (name : String) : Option (List String → Except UsageError Command) :=
  if name = "run" then some fun args => do
    let vs ← readArguments runParameters args
    return run (← text vs "file") (text? vs "trigger") (text? vs "input") (count? vs "max-depth")
  else if name = "validate" then some fun args => do
    return validate (← text (← readArguments validateParameters args) "file")
  else if name = "capabilities" then some fun args => do
    return capabilities (text? (← readArguments capabilitiesParameters args) "category")
  else if name = "init" then some fun args => do
    return init ((text? (← readArguments initParameters args) "output").getD defaultOutput)
  else none

def helpWord : String := "help"

/-- Whether a word can stand in the place of a command. -/
def isWord (s : String) : Bool := s == helpWord || (named? s).isSome

/-- What `help` and the arguments after it end in: help, unless they name no command. -/
def helpOn : List String → UsageError
  | [] => .helpRequested
  | [name] => if isWord name then .helpRequested else .unknownCommand
  | _ => .unknownCommand

/-- What is wrong with arguments that do not begin with a command. -/
def withoutCommand (arg : String) (rest : List String) : UsageError :=
  match Spelling.ofArgument arg with
  | .separator =>
    match rest with
    | [] => .commandMissing
    | next :: _ => if isWord next then .unknownArgument else .unknownCommand
  | .long name value =>
    if name = help.name then
      if value.isSome then .valueUnwanted else .helpRequested
    else .unknownArgument
  | .letters (c :: _) => if help.letter = some c then .helpRequested else .unknownArgument
  | .letters [] => .unknownArgument
  | .plain => .unknownCommand

/-- The command that arguments spell. -/
def ofArguments : List String → Except UsageError Command
  | [] => .error .commandMissing
  | arg :: rest =>
    match named? arg with
    | some read => read rest
    | none => if arg = helpWord then .error (helpOn rest) else .error (withoutCommand arg rest)

end Command

end TriggerFlow
