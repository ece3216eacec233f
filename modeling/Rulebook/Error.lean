import Rulebook.ParseError
import Rulebook.Run.Result
import Rulebook.Config

/-!
# Errors of the whole

What can end a compilation, an evaluation, a run or a command.
-/

namespace Rulebook

inductive Error where
  | parse (e : ParseError)
  | eval (e : EvalError)
  | workflow (e : RunError)
  | config (e : Config.Error)
  /-- The rule of a field is no rule. -/
  | rule (field : String) (e : ParseError)
  /-- An instruction of a step is no instruction. -/
  | instruction (step : String) (e : ParseError)
  /-- A file cannot be read. -/
  | io
  | json
  | yaml
  | other (message : String)
deriving DecidableEq, Repr

/-- The message of an error, where it has one of its own. -/
def Error.message? : Error → Option String
  | .parse e => some e.message
  | .eval e => some ("Evaluation error: " ++ e.message)
  | .workflow e => some ("Workflow error: " ++ e.message)
  | .config e => some ("Configuration error: " ++ e.message)
  | .rule field e => some ("Rule for field '" ++ field ++ "' is invalid: " ++ e.message)
  | .instruction step e => some ("Instruction of step '" ++ step ++ "' is invalid: " ++ e.message)
  | .io => none
  | .json => none
  | .yaml => none
  | .other message => some message

end Rulebook
