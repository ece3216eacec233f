import Rulebook.Text.Numeral
import Rulebook.Text.Space

/-!
# Configuration

The limit on nesting, the reading of or-joined groups, and the month in which fiscal years end.  A
configuration is taken from the environment, where each variable replaces one default, and it is
valid when the limit is at least one and the month is one of twelve.
-/

namespace Rulebook

/-- How an or-joined group of rules resolves. -/
inductive OrMode where
  /-- Passes when a member is false. -/
  | anyFalse
  /-- Passes when a member is true. -/
  | anyTrue
deriving DecidableEq, Repr

namespace OrMode

def name : OrMode → String
  | .anyFalse => "legacy_any_false"
  | .anyTrue => "conventional"

/-- The mode with this exact name. -/
def ofName? : String → Option OrMode
  | "legacy_any_false" | "legacy" => some .anyFalse
  | "conventional" => some .anyTrue
  | _ => none

end OrMode

structure Config where
  maxDepth : Nat := 32
  orMode : OrMode := .anyFalse
  fiscalYearEnd : Nat := 6
deriving DecidableEq, Repr, Inhabited

namespace Config

def depthVariable : String := "RULEFLOW_MAX_DEPTH"

def orVariable : String := "RULEFLOW_OR_SEMANTICS"

def monthVariable : String := "RULEFLOW_FISCAL_YEAR_END"

/-- Why a configuration is refused. -/
inductive Error where
  | notANumber (name text : String)
  | notAMonth (name text : String)
  | unknownOrMode (word : String)
  | noDepth
  | monthOutOfRange (month : Nat)
deriving DecidableEq, Repr

def Error.message : Error → String
  | .notANumber name text => name ++ " must be a number, got '" ++ text ++ "'"
  | .notAMonth name text => name ++ " must be a month number, got '" ++ text ++ "'"
  | .unknownOrMode word =>
    "unknown OR semantics '" ++ word ++ "', expected 'legacy' or 'conventional'"
  | .noDepth => "max_depth must be at least 1"
  | .monthOutOfRange month =>
    "fiscal_year_end_month must be between 1 and 12, got " ++ Text.showNatural month

def validate (c : Config) : Except Error Unit :=
  if c.maxDepth = 0 then .error .noDepth
  else if c.fiscalYearEnd < 1 ∨ 12 < c.fiscalYearEnd then .error (.monthOutOfRange c.fiscalYearEnd)
  else .ok ()

/-- A natural number below `bound`, white space around it ignored. -/
def readBelow? (bound : Nat) (text : String) : Option Nat :=
  (Text.natural? (Text.trim text.toList)).filter (· < bound)

def readDepth (text : String) : Except Error Nat :=
  match readBelow? 0x10000000000000000 text with
  | some n => .ok n
  | none => .error (.notANumber depthVariable text)

def readOrMode (text : String) : Except Error OrMode :=
  let word := Text.lowerAscii (Text.strip text)
  match OrMode.ofName? word with
  | some mode => .ok mode
  | none => .error (.unknownOrMode word)

def readMonth (text : String) : Except Error Nat :=
  match readBelow? 0x100000000 text with
  | some n => .ok n
  | none => .error (.notAMonth monthVariable text)

/-- The value of a variable, or the default when it is not set. -/
def variableOr {α : Type} (env : String → Option String) (name : String) (default : α)
    (read : String → Except Error α) : Except Error α :=
  match env name with
  | some text => read text
  | none => .ok default

/-- The defaults with what the environment sets. -/
def ofEnvironment (env : String → Option String) : Except Error Config := do
  let d : Config := {}
  let maxDepth ← variableOr env depthVariable d.maxDepth readDepth
  let orMode ← variableOr env orVariable d.orMode readOrMode
  let fiscalYearEnd ← variableOr env monthVariable d.fiscalYearEnd readMonth
  let c : Config := { maxDepth, orMode, fiscalYearEnd }
  c.validate
  return c

end Config

end Rulebook
