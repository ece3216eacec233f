import Rulebook.Action.Kind
import Rulebook.Rule.Check
import Rulebook.Value.Path

/-!
# Results of actions

A result has a kind, the value that the action produced, if any, and the reason of a failure.
Negation swaps Complete and Fail and keeps the value:

    r.negated.negated.kind = r.kind
-/

namespace Rulebook

inductive ResultKind where
  | new
  | pending
  | active
  | complete
  | fail
  /-- Nothing ran. -/
  | noAction
deriving DecidableEq, Repr

namespace ResultKind

def all : List ResultKind := [.new, .pending, .active, .complete, .fail, .noAction]

def name : ResultKind → String
  | .new => "New"
  | .pending => "Pending"
  | .active => "Active"
  | .complete => "Complete"
  | .fail => "Fail"
  | .noAction => "NoAction"

def ofName? (s : String) : Option ResultKind := all.find? (·.name == s)

end ResultKind

structure Result where
  kind : ResultKind
  value : Option Value := none
  failure : Option String := none

namespace Result

def complete : Result := { kind := .complete }

def completeWith (v : Value) : Result := { kind := .complete, value := some v }

def fail (reason : String) : Result := { kind := .fail, failure := some reason }

def noAction : Result := { kind := .noAction }

/-- Complete when the test passed. -/
def ofBool (passed : Bool) (reason : String) : Result := if passed then complete else fail reason

def isComplete (r : Result) : Bool := r.kind == .complete

def isFail (r : Result) : Bool := r.kind == .fail

def negated (r : Result) : Result :=
  match r.kind with
  | .complete => { r with kind := .fail, failure := some "negated result" }
  | .fail => { r with kind := .complete, failure := none }
  | _ => r

/-- The value as a parameter of another action: what was produced, or whether it completed. -/
def asValue (r : Result) : Value := r.value.getD (.bool r.isComplete)

end Result

/-! ## Errors -/

/-- What an action cannot do with the target. -/
inductive TargetFault where
  | path (e : Value.PathError)
  | notAList (found : Kind)
  /-- As told by a handler. -/
  | other (reason : String)
deriving DecidableEq, Repr

def TargetFault.message : TargetFault → String
  | .path e => e.message
  | .notAList found => "expected a list, found " ++ found.name
  | .other reason => reason

/-- Why an action failed to run. -/
inductive ActionFault where
  | missingParameter (index : Nat)
  | notANumber (shown : String)
  | notADate (shown : String)
  | unknownConversion (word : String)
  | notACalendarAction
  /-- As told by a handler. -/
  | other (message : String)
deriving DecidableEq, Repr

def ActionFault.message : ActionFault → String
  | .missingParameter index => "missing parameter " ++ Text.showNatural index
  | .notANumber shown => "'" ++ shown ++ "' is not a number"
  | .notADate shown => "'" ++ shown ++ "' is not a date"
  | .unknownConversion word => "unknown conversion '" ++ word ++ "'"
  | .notACalendarAction => "not a calendar action"
  | .other message => message

/-- Why a run stops. -/
inductive RunError where
  | noHandler (kind : ActionKind)
  | invalidTarget (kind : ActionKind) (fault : TargetFault)
  | failed (kind : ActionKind) (fault : ActionFault)
  | rule (e : EvalError)
  | tooDeep (limit : Nat)
deriving DecidableEq, Repr

def RunError.message : RunError → String
  | .noHandler kind => "no handler registered for action '" ++ kind.name ++ "'"
  | .invalidTarget kind fault =>
    "action '" ++ kind.name ++ "' cannot use target: " ++ fault.message
  | .failed kind fault => "action '" ++ kind.name ++ "' failed: " ++ fault.message
  | .rule e => e.message
  | .tooDeep limit => "nesting depth exceeds limit of " ++ Text.showNatural limit

/-- The result that records an error. -/
def Result.ofError (e : RunError) : Result := .fail e.message

end Rulebook
