import Rulebook.Value.Text

/-!
# Diagnostics

What is recorded when a check fails, and how the messages of an evaluation are shown: one a line, or
as an HTML list in which the five special characters are escaped.

    showMessages true []  = ""
    showMessages true [m] = "<ul><li>" ++ escape m ++ "</li></ul>"
-/

namespace Rulebook

/-- The check that a value failed. -/
inductive FailureKind where
  | operandMismatch
  | notUppercase
  | notLowercase
  | exceedsMax
  | belowMin
  | invalidEmail
  | notInList
  | notInLookup
  | required
  | notRoundedUp
  | notRoundedDown
  | outOfRange
deriving DecidableEq, Repr

namespace FailureKind

def all : List FailureKind :=
  [.operandMismatch, .notUppercase, .notLowercase, .exceedsMax, .belowMin, .invalidEmail,
    .notInList, .notInLookup, .required, .notRoundedUp, .notRoundedDown, .outOfRange]

def name : FailureKind → String
  | .operandMismatch => "OperandMismatch"
  | .notUppercase => "NotUppercase"
  | .notLowercase => "NotLowercase"
  | .exceedsMax => "ExceedsMax"
  | .belowMin => "BelowMin"
  | .invalidEmail => "InvalidEmail"
  | .notInList => "NotInList"
  | .notInLookup => "NotInLookup"
  | .required => "Required"
  | .notRoundedUp => "NotRoundedUp"
  | .notRoundedDown => "NotRoundedDown"
  | .outOfRange => "OutOfRange"

end FailureKind

/-- A failed check: the source of its rule and the text of the value. -/
structure Failure where
  kind : FailureKind
  rule : String
  value : String
deriving DecidableEq, Repr

structure Diagnostic where
  passed : Bool
  message : String
  failure : Option Failure
deriving DecidableEq, Repr

namespace Diagnostic

def failed (kind : FailureKind) (rule : String) (value : Value) (detail : String) : Diagnostic :=
  let shown := value.toText
  { passed := false
    message := rule ++ ": " ++ kind.name ++ " - " ++ detail ++ " (value: '" ++ shown ++ "')"
    failure := some ⟨kind, rule, shown⟩ }

/-- The messages of what did not pass. -/
def messages (ds : List Diagnostic) : List String :=
  (ds.filter fun d => !d.passed).map (·.message)

end Diagnostic

/-! ## Showing messages -/

def escapeChar (c : Char) : List Char :=
  match c with
  | '&' => "&amp;".toList
  | '<' => "&lt;".toList
  | '>' => "&gt;".toList
  | '"' => "&quot;".toList
  | '\'' => "&#39;".toList
  | _ => [c]

def escapeHtml (s : String) : String := String.ofList (s.toList.flatMap escapeChar)

/-- The messages as lines, or as an HTML list. -/
def showMessages (html : Bool) (messages : List String) : String :=
  if html then
    if messages.isEmpty then ""
    else "<ul>" ++ Text.join "" (messages.map fun m => "<li>" ++ escapeHtml m ++ "</li>") ++ "</ul>"
  else Text.join "\n" messages

end Rulebook
