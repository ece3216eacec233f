import Rulebook.Command.Basic

/-!
# Arguments of commands

The first argument names the command.  Options follow in any order, each once, with a long name or
its first letter: `--rule TEXT`, `--rule=TEXT` or `-r TEXT`.
-/

namespace Rulebook.Command

/-- Options by their long names; a flag has an empty text. -/
abbrev Options := List (String × String)

/-- The long name of an option that stands alone before its text. -/
def optionName? (names : List String) (argument : String) : Option String :=
  names.find? fun n => argument == "--" ++ n || argument.toList == ['-', n.front]

/-- The long name and the text of an option that are joined by an equals sign. -/
def joinedOption? (names : List String) (argument : String) : Option (String × String) := do
  let (left, right) ← Text.cutOnce '=' argument.toList
  let name ← names.find? fun n => String.ofList left == "--" ++ n
  some (name, String.ofList right)

/-- Reads options that have a text, and flags that have none. -/
def readOptions? (names flags : List String) : List String → Option Options
  | [] => some []
  | a :: rest =>
    match flags.find? fun f => a == "--" ++ f with
    | some flag => (readOptions? names flags rest).map ((flag, "") :: ·)
    | none => match joinedOption? names a with
      | some o => (readOptions? names flags rest).map (o :: ·)
      | none => match optionName? names a, rest with
        | some name, text :: rest => (readOptions? names flags rest).map ((name, text) :: ·)
        | _, _ => none

/-- The options, when none is given twice. -/
def options? (names flags : List String) (arguments : List String) : Option Options :=
  (readOptions? names flags arguments).filter fun os => (os.map (·.1)).Nodup

/-- The command that arguments ask for. -/
def ofArguments? : List String → Option Command
  | "check" :: rest => do
    let os ← options? ["rule", "value"] ["html"] rest
    some (.check (← os.lookup "rule") (← os.lookup "value") (os.lookup "html").isSome)
  | "parse" :: rest => do
    let os ← options? ["instruction"] [] rest
    some (.parse (← os.lookup "instruction"))
  | "run" :: rest => do
    let os ← options? ["file", "target"] [] rest
    some (.run (← os.lookup "file") ((os.lookup "target").getD "null"))
  | "validate" :: rest => do
    let os ← options? ["file", "input"] [] rest
    some (.validate (← os.lookup "file") (← os.lookup "input"))
  | _ => none

def usage : String :=
  Text.join "\n"
    ["usage: check --rule RULE --value VALUE [--html]",
      "       parse --instruction INSTRUCTION",
      "       run --file FILE [--target TARGET]",
      "       validate --file FILE --input INPUT"]

end Rulebook.Command
