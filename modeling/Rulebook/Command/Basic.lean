import Rulebook.Definition.Load
import Rulebook.Json.Read
import Rulebook.Json.Write
import Rulebook.Rule.Set
import Rulebook.Run.Builtin
import Rulebook.Step.Run
import Rulebook.Value.Json

/-!
# Commands

    check      tests a value against a rule
    parse      reads an instruction out
    run        runs the workflow of a file on a target
    validate   checks an object against the rule set of a file

What a command prints follows from its options, the environment, the files and the day.  A command
that ends in an error prints nothing.
-/

namespace Rulebook

inductive Command where
  | check (rule value : String) (html : Bool)
  | parse (instruction : String)
  | run (file target : String)
  | validate (file input : String)
deriving DecidableEq, Repr

/-- What a command can see of the machine. -/
structure Surroundings where
  /-- The text of an environment variable. -/
  environment : String → Option String
  /-- The text of the file at a path. -/
  file? : String → Option String
  today : Date

namespace Command

/-- The file that a command reads. -/
def path? : Command → Option String
  | .run file _ => some file
  | .validate file _ => some file
  | _ => none

/-- A value from JSON, or else from a literal. -/
def readValue (text : String) : Value :=
  match Json.read? text with
  | some j => .ofJson j
  | none => .literal text

/-- An object from JSON. -/
def readObject (text : String) : Except Error Value :=
  match Json.read? text with
  | none => .error .json
  | some j => match Value.ofJson j with
    | .object fields => .ok (.object fields)
    | v => .error (.other ("--input must be a JSON object, got " ++ v.kind.name))

def readFile (s : Surroundings) (path : String) : Except Error String :=
  match s.file? path with
  | some text => .ok text
  | none => .error .io

def checkLines (config : Config) (rule value : String) (html : Bool) :
    Except Error (List String) := do
  let r ← (Rule.compile config rule).mapError .parse
  let v := readValue value
  let e ← (r.evaluate { config } v).mapError .eval
  let verdict := if e.passed then ["PASS"] else ["FAIL", e.showMessages html]
  return verdict ++ if e.value.same v then [] else ["Value: " ++ e.value.display]

def parseLines (config : Config) (instruction : String) : Except Error (List String) := do
  let i ← (Instruction.parse config instruction).mapError .parse
  return [i.reading]

def runLines (s : Surroundings) (config : Config) (file target : String) :
    Except Error (List String) := do
  let definition ← WorkflowDefinition.ofYaml (← readFile s file)
  let w ← Workflow.compile config definition
  let en : Engine := { registry := .builtin, evaluator := { config := w.config }, today := s.today }
  match (w.root.run en).run.run { state := { target := readValue target } } with
  | (.error e, _) => .error (.workflow e)
  | (.ok r, j) =>
    return (j.trace.map fun t => t.path ++ ": " ++ t.result.kind.name) ++
      ["Result: " ++ r.kind.name] ++
      (r.failure.toList.map ("Failure: " ++ ·)) ++
      ["Target: " ++ j.state.target.toJson.pretty]

def validateLines (s : Surroundings) (config : Config) (file input : String) :
    Except Error (List String) := do
  let definition ← RuleSetDefinition.ofYaml (← readFile s file)
  let rules ← RuleSet.compile config definition
  let v ← readObject input
  let report ← (rules.validate { config } v).mapError .eval
  let head := "'" ++ report.name ++ "': "
  return if report.isValid then [head ++ "valid"]
    else [head ++ "invalid", report.showMessages false]

/-- The lines that a command prints. -/
def lines (s : Surroundings) (c : Command) : Except Error (List String) := do
  let config ← (Config.ofEnvironment s.environment).mapError .config
  match c with
  | .check rule value html => checkLines config rule value html
  | .parse instruction => parseLines config instruction
  | .run file target => runLines s config file target
  | .validate file input => validateLines s config file input

/-- The text that a command prints. -/
def output (s : Surroundings) (c : Command) : Except Error String := do
  let ls ← c.lines s
  return Text.join "" (ls.map (· ++ "\n"))

end Command

end Rulebook
