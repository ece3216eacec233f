import Rulebook.Action.Kind
import Rulebook.Rule.Basic
import Rulebook.Value.Text

/-!
# Actions and instructions

An action has a kind and parameters, which may be actions again.  An instruction is one action, or a
test with an action for when it completes and perhaps one for when it fails.  Actions made by `of`
and `negate` carry the text that reads as them.
-/

namespace Rulebook

/-- A parameter, over the type of actions. -/
inductive ParamOf (α : Type) where
  | literal (v : Value)
  /-- A property of the target, with or without the name of the object before it. -/
  | reference (object property : String)
  /-- A rule tested against the target. -/
  | rule (r : Rule)
  /-- An action run against the target. -/
  | action (a : α)

structure Action where
  kind : ActionKind
  /-- The name as written. -/
  name : String
  params : List (ParamOf Action)
  negative : Bool
  /-- The condition of a test. -/
  isTest : Bool
  source : String

abbrev Param := ParamOf Action

/-- The parameter as written. -/
def ParamOf.text : Param → String
  | .literal (.text s) => "\"" ++ s ++ "\""
  | .literal v => v.display
  | .reference object property => object ++ "." ++ property
  | .rule r => r.source
  | .action a => a.source

namespace Action

/-- The action of a kind on these parameters. -/
def of (kind : ActionKind) (params : List Param) : Action where
  kind
  name := kind.name
  params
  negative := false
  isTest := false
  source := kind.name ++ "(" ++ Text.join "," (params.map ParamOf.text) ++ ")"

def negate (a : Action) : Action :=
  { a with negative := !a.negative, source := "!" ++ a.source }

end Action

inductive Instruction where
  | action (a : Action)
  | test (condition onComplete : Action) (onFail : Option Action)

/-- The condition first, and then its branches. -/
def Instruction.actions : Instruction → List Action
  | .action a => [a]
  | .test c t none => [c, t]
  | .test c t (some e) => [c, t, e]

end Rulebook
