import Rulebook.Error
import Rulebook.Rule.Evaluate
import Rulebook.Rule.Parse
import Rulebook.Definition.Basic
import Rulebook.Value.Path

/-!
# Rule sets

A rule for each of some fields of an object.  Every rule is tested, and a field that is missing is
tested as null.
-/

namespace Rulebook

/-- A compiled rule for the value under a path. -/
structure FieldRule where
  field : String
  rule : Rule

structure RuleSet where
  name : String
  rules : List FieldRule

structure FieldOutcome where
  field : String
  evaluation : Evaluation

/-- The outcomes of validating one value. -/
structure Report where
  name : String
  outcomes : List FieldOutcome

namespace RuleSet

def compileRules (config : Config) : List FieldRuleDefinition → Except Error (List FieldRule)
  | [] => .ok []
  | d :: ds =>
    match Rule.compile config d.rule with
    | .error e => .error (.rule d.field e)
    | .ok rule => do
      let rs ← compileRules config ds
      return ⟨d.field, rule⟩ :: rs

def compile (config : Config) (d : RuleSetDefinition) : Except Error RuleSet := do
  let rules ← compileRules config d.rules
  return ⟨d.name, rules⟩

def testFields (ev : Evaluator) (v : Value) : List FieldRule → Except EvalError (List FieldOutcome)
  | [] => .ok []
  | r :: rs => do
    let evaluation ← r.rule.evaluate ev ((v.get? r.field).getD .null)
    let os ← testFields ev v rs
    return ⟨r.field, evaluation⟩ :: os

/-- Tests every field. -/
def validate (s : RuleSet) (ev : Evaluator) (v : Value) : Except EvalError Report := do
  let outcomes ← testFields ev v s.rules
  return ⟨s.name, outcomes⟩

end RuleSet

namespace Report

def isValid (r : Report) : Bool := r.outcomes.all (·.evaluation.passed)

def failedFields (r : Report) : List String :=
  (r.outcomes.filter fun o => !o.evaluation.passed).map (·.field)

/-- The first outcome of a field. -/
def outcome? (r : Report) (field : String) : Option FieldOutcome :=
  r.outcomes.find? (·.field == field)

/-- The messages of all fields, each after the name of its field. -/
def showMessages (r : Report) (html : Bool) : String :=
  Rulebook.showMessages html (r.outcomes.flatMap fun o =>
    (Diagnostic.messages o.evaluation.diagnostics).map fun m => o.field ++ ": " ++ m)

end Report

end Rulebook
