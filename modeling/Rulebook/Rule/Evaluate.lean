import Rulebook.Config
import Rulebook.Rule.Check

/-!
# Evaluating rules

An evaluation threads the value under test, which forced modifiers mend, and the diagnostics
recorded so far; both outlive an error.  Every leaf of a rule is tested, in order, whatever the
others say.  A group or node that passes takes back the diagnostics recorded inside it:

    test of a node that passes:   diagnostics after = diagnostics before
-/

namespace Rulebook

/-- What rules are evaluated under. -/
structure Evaluator where
  config : Config := {}
  lookup : Option Lookup := none

/-- The value under test and what was recorded about it. -/
structure TestState where
  value : Value
  diagnostics : List Diagnostic := []

/-- A computation on the state, which is kept when it fails. -/
abbrev TestM (α : Type) := ExceptT EvalError (StateM TestState) α

/-- Outcome of testing one value. -/
structure Evaluation where
  passed : Bool
  /-- The value as the forced modifiers left it. -/
  value : Value
  diagnostics : List Diagnostic

namespace Evaluation

def has (e : Evaluation) (kind : FailureKind) : Bool :=
  e.diagnostics.any fun d => match d.failure with
    | some f => f.kind == kind
    | none => false

def showMessages (e : Evaluation) (html : Bool) : String :=
  Rulebook.showMessages html (Diagnostic.messages e.diagnostics)

end Evaluation

namespace TestState

def record (s : TestState) (d : Diagnostic) : TestState :=
  { s with diagnostics := s.diagnostics ++ [d] }

/-- Number of diagnostics recorded. -/
def mark (s : TestState) : Nat := s.diagnostics.length

/-- Takes back what was recorded after a mark. -/
def truncate (s : TestState) (mark : Nat) : TestState :=
  { s with diagnostics := s.diagnostics.take mark }

def finish (s : TestState) (passed : Bool) : Evaluation := ⟨passed, s.value, s.diagnostics⟩

end TestState

namespace TestM

def value : TestM Value := do return (← get).value

/-- Records a failure of the present value. -/
def fail (kind : FailureKind) (rule detail : String) : TestM Bool := do
  modify fun s => s.record (.failed kind rule s.value detail)
  return false

/-- Runs a test; what it recorded is taken back when it passes. -/
def quietIfPassed (test : TestM Bool) : TestM Bool := do
  let mark := (← get).mark
  let passed ← test
  if passed then modify (·.truncate mark)
  return passed

end TestM

/-! ## Brackets -/

namespace Bracket

/-- The value that a bracket compares with, for a value under test. -/
def comparand (b : Bracket) (v : Value) : Option Value :=
  match b.target with
  | none => none
  | some .this => some v
  | some (.literal w) => some w

def testOperand (b : Bracket) : TestM Bool := do
  let v ← TestM.value
  match b.comparand v with
  | none => return true
  | some w =>
    if b.operand.holds (Value.compareLoose (b.has .ignoreCase) v w) then return true
    else
      TestM.fail .operandMismatch b.source
        ("expected " ++ b.operand.symbol ++ " '" ++ w.toText ++ "'")

def testModifier (b : Bracket) (lookup : Option Lookup) (m : Modifier) : TestM Bool := do
  let v ← TestM.value
  match m.check ⟨b.force, b.has .ignoreCase, lookup⟩ v with
  | .error e => throw e
  | .ok .pass => return true
  | .ok (.mended w) =>
    modify fun s => { s with value := w }
    return true
  | .ok (.fail kind detail) => TestM.fail kind b.source detail

/-- All modifiers are applied, whatever the others say. -/
def testModifiers (b : Bracket) (lookup : Option Lookup) : List Modifier → TestM Bool
  | [] => return true
  | m :: ms => do
    let p ← testModifier b lookup m
    let q ← testModifiers b lookup ms
    return p && q

def test (b : Bracket) (lookup : Option Lookup) : TestM Bool := do
  let p ← b.testOperand
  let q ← b.testModifiers lookup b.modifiers
  return p && q

end Bracket

/-! ## Groups and nodes -/

/-- Whether a group passes, by the results of its members; an empty group does. -/
def Join.resolve (join : Join) (mode : OrMode) (results : List Bool) : Bool :=
  results.isEmpty || match join, mode with
    | .and, _ => results.all id
    | .or, .anyFalse => results.any (!·)
    | .or, .anyTrue => results.any id

namespace Rule

mutual

/-- Tests the value of the state, at a depth of nodes and groups. -/
def test (ev : Evaluator) : Rule → Nat → TestM Bool
  | .bracket b, _ => b.test ev.lookup
  | .node _ _ groups, depth =>
    if ev.config.maxDepth < depth then throw (.tooDeep ev.config.maxDepth)
    else TestM.quietIfPassed (testGroups ev groups (depth + 1))

def testGroups (ev : Evaluator) : List (GroupOf Rule) → Nat → TestM Bool
  | [], _ => return true
  | g :: gs, depth => do
    let p ← testGroup ev g depth
    let q ← testGroups ev gs depth
    return p && q

def testGroup (ev : Evaluator) : GroupOf Rule → Nat → TestM Bool
  | ⟨join, members⟩, depth => TestM.quietIfPassed do
    let results ← testMembers ev members depth
    return join.resolve ev.config.orMode results

def testMembers (ev : Evaluator) : List Rule → Nat → TestM (List Bool)
  | [], _ => return []
  | r :: rs, depth => do
    let p ← test ev r depth
    let ps ← testMembers ev rs depth
    return p :: ps

end

/-- Tests a rule on a value. -/
def evaluate (ev : Evaluator) (r : Rule) (v : Value) : Except EvalError Evaluation :=
  match (r.test ev 0).run.run { value := v } with
  | (.ok passed, s) => .ok (s.finish passed)
  | (.error e, _) => .error e

end Rule

end Rulebook
