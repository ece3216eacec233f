import Rulebook.Config

/-!
# Definitions

What workflow and rule set files say, before their rules and instructions are read.
-/

namespace Rulebook

/-- How the result of a step follows from those of its children. -/
inductive Cascade where
  /-- Fails if a child failed. -/
  | anyOneFails
  /-- Completes if a child completed. -/
  | anyOneCompletes
  /-- Completes if every child completed. -/
  | allMustComplete
  /-- Completes if every child failed. -/
  | allMustFail
deriving DecidableEq, Repr

namespace Cascade

def all : List Cascade := [.anyOneFails, .anyOneCompletes, .allMustComplete, .allMustFail]

def name : Cascade → String
  | .anyOneFails => "any_one_fails"
  | .anyOneCompletes => "any_one_completes"
  | .allMustComplete => "all_must_complete"
  | .allMustFail => "all_must_fail"

/-- The policy with this name, in its short or its long form. -/
def ofName? : String → Option Cascade
  | "any_one_fails" | "AnyOneFailsParent" => some .anyOneFails
  | "any_one_completes" | "AnyOneCompletesParent" => some .anyOneCompletes
  | "all_must_complete" | "AllMustCompleteParent" => some .allMustComplete
  | "all_must_fail" | "AllMustFailParent" => some .allMustFail
  | _ => none

end Cascade

structure StepDefinition where
  name : String
  /-- An instruction that comes before the others. -/
  instruction : Option String := none
  instructions : List String := []
  /-- Place among the steps of one parent; lower ones run first. -/
  order : Int := 0
  cascade : Cascade := .anyOneFails
  children : List StepDefinition := []

/-- The instructions in the order in which they run. -/
def StepDefinition.allInstructions (d : StepDefinition) : List String :=
  d.instruction.toList ++ d.instructions

structure WorkflowDefinition where
  name : String
  description : String := ""
  /-- Settings in the place of those of the environment. -/
  config : Option Config := none
  step : StepDefinition

structure FieldRuleDefinition where
  /-- Path into the object that is validated. -/
  field : String
  rule : String

structure RuleSetDefinition where
  name : String
  description : String := ""
  rules : List FieldRuleDefinition := []

end Rulebook
