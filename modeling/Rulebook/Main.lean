import Rulebook.Command.Arguments
import Std.Time

/-!
# The command line

Reads the environment, the day and the file of the command, and prints what the command prints.  The
status is 0, or 1 after an error, or 2 when the arguments are not understood.
-/

open Rulebook

/-- The settings of the environment. -/
def readSettings : List String → IO (List (String × String))
  | [] => return []
  | name :: rest => do
    let found ← IO.getEnv name
    let more ← readSettings rest
    return (found.toList.map (name, ·)) ++ more

/-- The text of a file that can be read. -/
def readText (path : String) : IO (Option String) :=
  try
    let text ← IO.FS.readFile path
    return some text
  catch _ => return none

def readToday : IO Date := do
  let now ← Std.Time.PlainDate.now
  return (Date.ofYmd? now.year.toInt now.month.val.toNat now.day.val.toNat).getD default

def runCommand (c : Command) : IO UInt32 := do
  let settings ← readSettings [Config.depthVariable, Config.orVariable, Config.monthVariable]
  let text ← match c.path? with
    | some path => readText path
    | none => pure none
  let surroundings : Surroundings :=
    { environment := fun name => settings.lookup name
      file? := fun _ => text
      today := ← readToday }
  match c.output surroundings with
  | .ok printed =>
    IO.print printed
    return 0
  | .error e =>
    IO.eprintln (e.message?.getD "the file or the text cannot be read")
    return 1

def main (arguments : List String) : IO UInt32 :=
  match Command.ofArguments? arguments with
  | some c => runCommand c
  | none => do
    IO.eprintln Command.usage
    return 2
