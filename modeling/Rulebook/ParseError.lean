import Rulebook.Action.Kind
import Rulebook.Rule.Modifier

/-!
# Errors of reading rules and instructions

An error has a cause, the fragment of the source it is about, and the byte position where it was
found.
-/

namespace Rulebook

/-- What is wrong with the argument of a modifier. -/
inductive ArgumentFault where
  | takesNone
  | notExactlyOne
  | notANumber
  | notAColumn
  | notDigits
  | moreThanOne
  | notTwoBounds
  | moreThanTwo
  | notABound
  | boundsReversed
deriving DecidableEq, Repr

def ArgumentFault.message : ArgumentFault → String
  | .takesNone => "takes no arguments"
  | .notExactlyOne => "expects exactly one argument"
  | .notANumber => "not a number"
  | .notAColumn => "expected table.column"
  | .notDigits => "expected digits 0-15"
  | .moreThanOne => "expects at most one argument"
  | .notTwoBounds => "expects a lower and an upper bound"
  | .moreThanTwo => "expects exactly two arguments"
  | .notABound => "expected a number or date"
  | .boundsReversed => "lower bound exceeds upper bound"

/-- Why a text is neither a rule nor an instruction. -/
inductive ParseCause where
  | empty
  | unexpected (expected found : String)
  | unterminatedQuote
  | unknownModifier (code : String)
  | missingArgument (code : ModifierCode)
  | invalidArgument (code : ModifierCode) (argument : String) (fault : ArgumentFault)
  | duplicateModifier (code : ModifierCode)
  | unknownFlag (flag : Char)
  | unknownAction (name : String)
  | wrongCount (action : ActionKind) (found : Nat)
  | expectedAction (action : ActionKind) (index : Nat)
  | chainTooLong
  | tooDeep (limit : Nat)
deriving DecidableEq, Repr

def ParseCause.message : ParseCause → String
  | .empty => "empty input"
  | .unexpected expected found => "expected " ++ expected ++ ", found " ++ found
  | .unterminatedQuote => "unterminated quoted literal"
  | .unknownModifier code => "unknown modifier '" ++ code ++ "'"
  | .missingArgument code => "missing argument for modifier '" ++ code.text ++ "'"
  | .invalidArgument code argument fault =>
    "invalid argument '" ++ argument ++ "' for modifier '" ++ code.text ++ "': " ++ fault.message
  | .duplicateModifier code => "modifier '" ++ code.text ++ "' given more than once"
  | .unknownFlag flag => "unknown flag '" ++ String.singleton flag ++ "'"
  | .unknownAction name => "unknown action '" ++ name ++ "'"
  | .wrongCount action found =>
    "action '" ++ action.name ++ "' expects " ++ action.countText ++ " parameters, found " ++
      Text.showNatural found
  | .expectedAction action index =>
    "parameter " ++ Text.showNatural index ++ " of action '" ++ action.name ++ "' must be an action"
  | .chainTooLong => "workflow chain has more than three parts"
  | .tooDeep limit => "nesting depth exceeds limit of " ++ Text.showNatural limit

structure ParseError where
  cause : ParseCause
  fragment : String
  position : Nat
deriving DecidableEq, Repr

def ParseError.message (e : ParseError) : String :=
  e.cause.message ++ " at position " ++ Text.showNatural e.position ++
    " near '" ++ e.fragment ++ "'"

end Rulebook
