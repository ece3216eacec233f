import Rulebook.Action.Basic

/-!
# Readings of actions

`describe` says in words what an action does, without its own negation; a negative action inside
another is read with `NOT` before it.

    gt(5)=>SET(1)        if value is greater than 5 then set value to 1
-/

namespace Rulebook

namespace ActionKind

/-- What a date action computes. -/
def dateLabel : ActionKind → String
  | .endOfMonth => "end of month"
  | .endOfQuarter => "end of quarter"
  | .endOfFiscalYear => "end of fiscal year"
  | .firstOfMonth => "first working day of month"
  | .firstOfQuarter => "first working day of quarter"
  | .firstOfFiscalYear => "first working day of fiscal year"
  | .lastOfMonth => "last working day of month"
  | .lastOfQuarter => "last working day of quarter"
  | _ => "last working day of fiscal year"

/-- The cases of a switch, two parameters each, and the one left over. -/
def caseTexts : List String → List String
  | value :: result :: rest => ("when " ++ value ++ ": " ++ result) :: caseTexts rest
  | [other] => ["otherwise: " ++ other]
  | [] => []

/-- A comparison of two parameters, or of the value with one. -/
def comparison (verb : String) (ps : List String) : String :=
  match ps with
  | [a, b] => a ++ " " ++ verb ++ " " ++ b
  | _ => "value " ++ verb ++ " " ++ ps.headD ""

/-- The reading of an action of this kind, from the readings of its parameters. -/
def phrase (k : ActionKind) (ps : List String) : String :=
  let p (i : Nat) : String := ps.getD i ""
  let n := ps.length
  match k with
  | .gt => comparison "is greater than" ps
  | .lt => comparison "is less than" ps
  | .eq => comparison "equals" ps
  | .gte => comparison "is at least" ps
  | .lte => comparison "is at most" ps
  | .bw =>
    if n = 3 then p 0 ++ " is between " ++ p 1 ++ " and " ++ p 2
    else "value is between " ++ p 0 ++ " and " ++ p 1
  | .len => if n = 2 then "length is between " ++ p 0 ++ " and " ++ p 1 else "length is " ++ p 0
  | .oneOf => "value is one of " ++ Text.join ", " ps
  | .check => "check " ++ p 0
  | .set => if n = 2 then "set " ++ p 0 ++ " to " ++ p 1 else "set value to " ++ p 0
  | .get => "get " ++ p 0
  | .list => "list of " ++ Text.join ", " ps
  | .each => "for each item: " ++ p 0
  | .convertTo => "convert value to " ++ p 0
  | .ifttt =>
    if n = 3 then "if " ++ p 0 ++ " then " ++ p 1 ++ " otherwise " ++ p 2
    else "if " ++ p 0 ++ " then " ++ p 1
  | .switch => "switch on value (" ++ Text.join "; " (caseTexts ps) ++ ")"
  | .stop => "end the workflow"
  | .today => "today"
  | .attach | .email | .wait | .workflow | .zip | .goto =>
    k.name ++ "(" ++ Text.join ", " ps ++ ")"
  | .endOfMonth | .endOfQuarter | .endOfFiscalYear | .firstOfMonth | .firstOfQuarter
  | .firstOfFiscalYear | .lastOfMonth | .lastOfQuarter | .lastOfFiscalYear =>
    if n = 1 then k.dateLabel ++ " of " ++ p 0 else k.dateLabel

end ActionKind

/-- A reading with its negation. -/
def negatedPhrase (negative : Bool) (phrase : String) : String :=
  if negative then "NOT " ++ phrase else phrase

namespace Action

mutual

/-- The reading of an action, without its own negation. -/
def describe : Action → String
  | ⟨kind, _, params, _, _, _⟩ => kind.phrase (describeParams params)

def describeParams : List (ParamOf Action) → List String
  | [] => []
  | p :: ps => describeParam p :: describeParams ps

def describeParam : ParamOf Action → String
  | .action a => negatedPhrase a.negative (describe a)
  | .literal v => ParamOf.text (.literal v)
  | .reference o p => ParamOf.text (.reference o p)
  | .rule r => ParamOf.text (.rule r)

end

/-- The reading of an action. -/
def reading (a : Action) : String := negatedPhrase a.negative a.describe

end Action

def Instruction.reading : Instruction → String
  | .action a => a.reading
  | .test c t none => "if " ++ c.reading ++ " then " ++ t.reading
  | .test c t (some e) =>
    "if " ++ c.reading ++ " then " ++ t.reading ++ " otherwise " ++ e.reading

end Rulebook
