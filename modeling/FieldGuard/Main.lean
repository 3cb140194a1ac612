import FieldGuard.CommandLine.Run
import FieldGuard.Json.Printer
import FieldGuard.Json.Reader
import FieldGuard.Settings.Table

/-!
# `FieldGuard.Main`: the program

Reads the files that the arguments name, runs the command and prints its report.
-/

set_option autoImplicit false

namespace FieldGuard.CommandLine

/-- The text that help and mistakes in the arguments are answered with. -/
def usage : String :=
  "Usage: extval [--config NAME] <inspect|validate> FIXTURE [--view VIEW]"

/-- The text of a file, if it can be read. -/
def readText? (path : String) : IO (Option String) := do
  try
    return some (← IO.FS.readFile path)
  catch _ =>
    return none

/-- Reads what a command needs. The environment is not searched by name, so only the
variables that set options are asked for. -/
def gather (i : Invocation) : IO Sources := do
  let settings ← readText? (i.config ++ ".toml")
  let fixture ← readText? i.fixture
  let mut environment := #[]
  for (option, _) in Settings.toMembers {} do
    let name := "EXTVAL_" ++ option.map Char.toUpper
    if let some value ← IO.getEnv name then
      environment := environment.push (name, value)
  let table : Except String (List (String × Json)) :=
    match settings with
    | none => .ok []
    | some text =>
      match Settings.Table.read? text with
      | some members => .ok members
      | none => .error (i.config ++ ".toml is no table of settings")
  return {
    table := fun _ => table
    fixture := fun _ => fixture.map Json.read?
    environment := environment.toList }

/-- Prints a result; yields the exit status. -/
def finish (r : Result) : IO UInt32 := do
  if let some report := r.report then
    IO.println report.pretty
  if let some complaint := r.complaint then
    IO.eprintln ("Error: " ++ complaint)
  return UInt32.ofNat r.status

end FieldGuard.CommandLine

open FieldGuard.CommandLine in
/-- Runs the program. -/
def main (args : List String) : IO UInt32 := do
  match Request.ofArguments args with
  | .information =>
    IO.println usage
    return 0
  | .misuse =>
    IO.eprintln usage
    return 2
  | .run i => finish (runInvocation (← gather i) i)
