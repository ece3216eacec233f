import Rulebook.Definition.Basic
import Rulebook.Document.Field

/-!
# Definitions from documents

    Config               max_depth, or_semantics, fiscal_year_end_month, all with defaults
    RuleSetDefinition    name, description, rules: a list of records with field and rule
    WorkflowDefinition   name, description, config, step
    StepDefinition       name, instruction, instructions, order, cascade, children

Names are required, and so are the step of a workflow and both fields of a rule.
-/

namespace Rulebook

open Document

def Config.ofDocument? (levels : Nat) (d : Document) : Option Config := do
  let es ← d.entries? levels ["max_depth", "or_semantics", "fiscal_year_end_month"] 0
  let c : Config := {}
  let maxDepth ← withDefault es "max_depth" c.maxDepth (naturalBelow? 0x10000000000000000)
  let orMode ← withDefault es "or_semantics" c.orMode fun d => d.caseName?.bind OrMode.ofName?
  let fiscalYearEnd ←
    withDefault es "fiscal_year_end_month" c.fiscalYearEnd (naturalBelow? 0x100000000)
  return { maxDepth, orMode, fiscalYearEnd }

def FieldRuleDefinition.ofDocument? (levels : Nat) (d : Document) : Option FieldRuleDefinition := do
  let es ← d.entries? levels ["field", "rule"] 2
  let field ← required es "field" text?
  let rule ← required es "rule" text?
  return { field, rule }

def RuleSetDefinition.ofDocument? (d : Document) : Option RuleSetDefinition := do
  let levels := depthLimit
  let es ← d.entries? levels ["name", "description", "rules"] 1
  let name ← required es "name" text?
  let description ← withDefault es "description" "" text?
  let rules ← withDefault es "rules" [] fun d => do
    (← d.items? (levels - 1)).mapM (FieldRuleDefinition.ofDocument? (levels - 2))
  return { name, description, rules }

def StepDefinition.fieldNames : List String :=
  ["name", "instruction", "instructions", "order", "cascade", "children"]

/-- A step whose record is within `levels` levels. -/
def StepDefinition.ofDocumentWithin? : Nat → Document → Option StepDefinition
  | 0, _ => none
  | levels + 1, d => do
    let es ← d.entries? (levels + 1) fieldNames 2
    let name ← required es "name" text?
    let instruction ← optional es "instruction" text?
    let instructions ← withDefault es "instructions" [] (texts? levels)
    let order ← withDefault es "order" 0 int32?
    let cascade ← withDefault es "cascade" .anyOneFails fun d => d.caseName?.bind Cascade.ofName?
    let children ← withDefault es "children" [] fun d => do
      match ← d.items? levels, levels with
      | items, levels + 1 => items.mapM (ofDocumentWithin? levels)
      | _, 0 => some []
    return { name, instruction, instructions, order, cascade, children }

def StepDefinition.ofDocument? (d : Document) : Option StepDefinition :=
  ofDocumentWithin? depthLimit d

def WorkflowDefinition.ofDocument? (d : Document) : Option WorkflowDefinition := do
  let levels := depthLimit
  let es ← d.entries? levels ["name", "description", "config", "step"] 4
  let name ← required es "name" text?
  let description ← withDefault es "description" "" text?
  let config ← optional es "config" (Config.ofDocument? (levels - 1))
  let step ← required es "step" (StepDefinition.ofDocumentWithin? (levels - 1))
  return { name, description, config, step }

end Rulebook
