import Rulebook.Rule.Evaluate
import Rulebook.Run.Script

/-!
# Running actions

A run threads the target and the halt flag, which outlive an error.  An action is refused when it is
nested too deep or has no handler; else its script is run, and a negative action negates the result.
Parameters are run one level deeper:

    a value    of a rule: whether the target passes
               of an action: its value, or else whether it completed
    a branch   of a rule: Complete, or Fail with the messages
               of a literal: whether it is true
-/

namespace Rulebook

/-- What actions are run with. -/
structure Engine where
  registry : Registry
  evaluator : Evaluator := {}
  today : Date

def Engine.maxDepth (en : Engine) : Nat := en.evaluator.config.maxDepth

structure RunState where
  target : Value
  halted : Bool := false

/-- A computation on the state, which is kept when it fails. -/
abbrev RunM (α : Type) := ExceptT RunError (StateM RunState) α

namespace RunM

variable {α : Type}

def target : RunM Value := do return (← get).target

def setTarget (v : Value) : RunM Unit := modify fun s => { s with target := v }

def halt : RunM Unit := modify fun s => { s with halted := true }

/-- The outcome of a computation, error or not. -/
def observe (x : RunM α) : RunM (Except RunError α) := ExceptT.mk do
  let outcome ← x.run
  return .ok outcome

/-- Runs with a stand-in for the target; the target is put back, also after an error. -/
def withTarget (standIn : Value) (x : RunM α) : RunM (α × Value) := do
  let saved ← target
  setTarget standIn
  let outcome ← observe x
  let used ← target
  setTarget saved
  match outcome with
  | .ok a => return (a, used)
  | .error e => throw e

end RunM

/-- A parameter as a value, and as a condition or branch. -/
structure ParamRun where
  value : RunM Value
  run : RunM Result

namespace ParamRun

/-- A parameter that is a value already. -/
def ofValue (text : String) (value : RunM Value) : ParamRun where
  value
  run := do
    let v ← value
    return .ofBool v.isTruthy (text ++ " is not true")

/-- The property under the name of its object, or else directly in the target. -/
def resolve (object property : String) (target : Value) : Value :=
  ((target.get? (object ++ "." ++ property)).orElse fun _ => target.get? property).getD .null

def evaluate (ev : Evaluator) (r : Rule) : RunM Evaluation := do
  match r.evaluate ev (← RunM.target) with
  | .ok e => return e
  | .error e => throw (.rule e)

def ofRule (ev : Evaluator) (r : Rule) : ParamRun where
  value := do
    let e ← evaluate ev r
    return .bool e.passed
  run := do
    let e ← evaluate ev r
    return .ofBool e.passed (e.showMessages false)

def ofAction (run : RunM Result) : ParamRun where
  value := do
    let r ← run
    return r.asValue
  run

/-- The parameter that an action of this kind does not have. -/
def missing (kind : ActionKind) (index : Nat) : ParamRun where
  value := throw (.failed kind (.missingParameter index))
  run := throw (.failed kind (.missingParameter index))

end ParamRun

/-- Runs a script with the parameters of an action. -/
def Script.exec {α : Type} (kind : ActionKind) (params : List ParamRun) : Script α → RunM α
  | .done a => return a
  | .raise e => throw e
  | .target next => do (next (← RunM.target)).exec kind params
  | .setTarget v next => do
    RunM.setTarget v
    next.exec kind params
  | .halt next => do
    RunM.halt
    next.exec kind params
  | .value i next => do
    let r ← RunM.observe (params[i]?.getD (.missing kind i)).value
    (next r).exec kind params
  | .run i next => do
    let r ← RunM.observe (params[i]?.getD (.missing kind i)).run
    (next r).exec kind params
  | .runWith i v next => do
    let r ← RunM.observe (RunM.withTarget v (params[i]?.getD (.missing kind i)).run)
    (next r).exec kind params

namespace Action

mutual

/-- Runs an action at a depth of nesting. -/
def run (en : Engine) : Action → Nat → RunM Result
  | ⟨kind, name, params, negative, isTest, source⟩, depth =>
    if en.maxDepth < depth then throw (.tooDeep en.maxDepth)
    else match en.registry.handler? kind with
      | none => throw (.noHandler kind)
      | some h => do
        let call : Call :=
          ⟨⟨kind, name, params, negative, isTest, source⟩, en.today, en.evaluator.config⟩
        let r ← (h.script call).exec kind (runParams en params (depth + 1))
        return if negative then r.negated else r

def runParams (en : Engine) : List (ParamOf Action) → Nat → List ParamRun
  | [], _ => []
  | p :: ps, depth => runParam en p depth :: runParams en ps depth

def runParam (en : Engine) : ParamOf Action → Nat → ParamRun
  | .literal v, _ => .ofValue (ParamOf.text (.literal v)) (pure v)
  | .reference o p, _ =>
    .ofValue (ParamOf.text (.reference o p)) do return ParamRun.resolve o p (← RunM.target)
  | .rule r, _ => .ofRule en.evaluator r
  | .action a, depth => .ofAction (run en a depth)

end

end Action

end Rulebook
