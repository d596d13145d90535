import TriggerFlow.CommandLine.Report
/-!
# The program

The outer layer: `main` takes the arguments, the files and the time from the system, prints what
`Command.perform` reports, and lets the time pass that a run has waited.
-/

namespace TriggerFlow.Program

/-- The result of `act`, or the reason of a failure of the system as `Command.Files` gives it. -/
def attempt {α : Type} (act : IO α) : IO (Except String α) := do
  match ← act.toBaseIO with
  | .ok a => return .ok a
  | .error e => return .error e.toString

def files : Command.Files IO where
  read path := attempt (IO.FS.readFile path)
  write path content := attempt (IO.FS.writeFile path content)

/-- A number below `256 ^ bytes`. -/
def random (bytes : Nat) : IO Nat := do
  return (← IO.getRandomBytes bytes.toUSize).foldl (fun n b => n * 256 + b.toNat) 0

/-- A number below 4 for each kind of rows, which keeps the identifiers of `supply` apart. -/
def ordinal : RowKind → Nat
  | .workflow => 0
  | .node => 1
  | .connection => 2
  | .execution => 3

/-- Marks a number of 64 bits as the upper half of a random identifier: version 4. -/
def markUpper (n : Nat) : Nat := n / 0x10000 * 0x10000 + 0x4000 + n % 0x1000

/-- Marks a number of 64 bits as the lower half of a random identifier: variant 1. -/
def markLower (n : Nat) : Nat := 0x8000000000000000 + n % 0x4000000000000000

/-- A supply of identifiers that starts from a random place: the lower half counts `4 * n + ordinal
kind`, so that none repeats. -/
def supply : IO IdSupply := do
  let upper ← random 8
  let start ← random 8
  return IdSupply.ofNames fun kind n =>
    Uuid.ofHalves (markUpper upper) (markLower (start + 4 * n + ordinal kind))

def randomId : IO Uuid := do
  return Uuid.ofHalves (markUpper (← random 8)) (markLower (← random 8))

/-- The time since some moment, to the millisecond; commands print durations only, so that the
moment is of no account. -/
def now : IO Timestamp := do
  return Timestamp.epoch.addMillis (← BaseIO.toIO IO.monoMsNow)

/-- What is said of arguments that spell no command. -/
def usageText : CommandLine.UsageError → String
  | .helpRequested => "Usage: automate run | validate | capabilities | init [OPTIONS]"
  | .commandMissing => "error: a command is missing"
  | .unknownCommand => "error: unrecognized command"
  | .unknownArgument => "error: unexpected argument"
  | .parameterMissing => "error: a required argument is missing"
  | .valueMissing => "error: a value is missing"
  | .valueUnwanted => "error: a flag takes no value"
  | .valueInvalid => "error: invalid value"
  | .repeated => "error: an argument is given twice"

/-- Prints a `chain` on the error channel, the causes below the outermost circumstance. -/
def printFailure (chain : List String) : IO Unit := do
  match chain with
  | [] => return ()
  | outermost :: causes =>
    IO.eprintln ("Error: " ++ outermost)
    unless causes.isEmpty do
      IO.eprintln ""
      IO.eprintln "Caused by:"
      causes.forM fun cause => IO.eprintln ("    " ++ cause)

end TriggerFlow.Program

open TriggerFlow TriggerFlow.Program in
/-- Carries out the command that the arguments spell; ends with 0, with 1 after a `Failure`, and
with 2 for a `UsageError`. -/
def main (args : List String) : IO UInt32 := do
  match Command.ofArguments args with
  | .error .helpRequested =>
    IO.println (usageText .helpRequested)
    return 0
  | .error e =>
    IO.eprintln (usageText e)
    return 2
  | .ok command =>
    let storage := Storage.fresh (← supply) (← now)
    let report ← command.perform files storage ⟨← randomId, ← randomId⟩
    IO.sleep (UInt32.ofNat report.elapsedMs)
    report.lines.forM fun line => IO.println line
    match report.failure with
    | none => return 0
    | some failure =>
      printFailure failure.chain
      return 1
