import Rulebook.Action.Phrase
import Rulebook.Sorting
import Rulebook.Step.Basic

/-!
# Outlines of step trees

The readings of the instructions of every step, with the children in the order in which they run.
Written, a level is two blanks deep:

    root (any_one_fails):
      - set value to 1
      child:
-/

namespace Rulebook

structure Outline where
  name : String
  cascade : Cascade
  lines : List String
  children : List Outline

namespace Outline

mutual

/-- The lines of an outline, each ended by a line break. -/
def writeAt (indent : String) : Outline → String
  | ⟨name, cascade, lines, children⟩ =>
    let head := if children.isEmpty then name ++ ":\n" else name ++ " (" ++ cascade.name ++ "):\n"
    indent ++ head ++ Text.join "" (lines.map fun l => indent ++ "  - " ++ l ++ "\n") ++
      writeChildren (indent ++ "  ") children

def writeChildren (indent : String) : List Outline → String
  | [] => ""
  | o :: os => writeAt indent o ++ writeChildren indent os

end

def write (o : Outline) : String := o.writeAt ""

end Outline

namespace Step

mutual

def outline : Step → Outline
  | ⟨name, _, instructions, cascade, children⟩ =>
    { name
      cascade
      lines := instructions.map Instruction.reading
      children := (sortOn Prod.fst (childOutlines children)).map Prod.snd }

/-- The outlines of children, each with its place in the order. -/
def childOutlines : List Step → List (Int × Outline)
  | [] => []
  | ⟨name, order, instructions, cascade, children⟩ :: ss =>
    (order, outline ⟨name, order, instructions, cascade, children⟩) :: childOutlines ss

end

end Step

end Rulebook
