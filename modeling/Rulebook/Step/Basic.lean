import Rulebook.Action.Parse
import Rulebook.Error
import Rulebook.Definition.Basic

/-!
# Steps

A step has instructions and children, both compiled.  Building a tree of steps reads every
instruction in it, so a bad instruction anywhere refuses the whole tree; the error names the first
step at fault, parents before children.
-/

namespace Rulebook

structure Step where
  name : String
  order : Int := 0
  instructions : List Instruction := []
  cascade : Cascade := .anyOneFails
  children : List Step := []

namespace Step

/-- The instructions that the texts of a step hold. -/
def readInstructions (config : Config) (name : String) :
    List String → Except Error (List Instruction)
  | [] => .ok []
  | s :: ss =>
    match Instruction.parse config s with
    | .error e => .error (.instruction name e)
    | .ok i => do
      let is ← readInstructions config name ss
      return i :: is

mutual

/-- Builds a step at a depth of the tree. -/
def buildAt (config : Config) : StepDefinition → Nat → Except Error Step
  | ⟨name, instruction, instructions, order, cascade, children⟩, depth =>
    if config.maxDepth < depth then
      .error (.instruction name ⟨.tooDeep config.maxDepth, name, 0⟩)
    else do
      let texts := StepDefinition.allInstructions
        ⟨name, instruction, instructions, order, cascade, children⟩
      let instructions ← readInstructions config name texts
      let children ← buildChildren config children (depth + 1)
      return { name, order, instructions, cascade, children }

def buildChildren (config : Config) : List StepDefinition → Nat → Except Error (List Step)
  | [], _ => .ok []
  | d :: ds, depth => do
    let s ← buildAt config d depth
    let ss ← buildChildren config ds depth
    return s :: ss

end

/-- The step tree of a definition. -/
def build (config : Config) (d : StepDefinition) : Except Error Step := buildAt config d 0

/-- A step of one instruction. -/
def ofInstruction (config : Config) (name text : String) : Except ParseError Step :=
  (Instruction.parse config text).map fun i => { name, instructions := [i] }

end Step

/-- A compiled workflow and the configuration it runs under. -/
structure Workflow where
  name : String
  config : Config
  root : Step

/-- Compiles a workflow; its own settings replace the others. -/
def Workflow.compile (fallback : Config) (d : WorkflowDefinition) : Except Error Workflow := do
  let config := d.config.getD fallback
  (config.validate).mapError .config
  let root ← Step.build config d.step
  return { name := d.name, config, root }

end Rulebook
