import Rulebook.Action.Phrase
import Rulebook.Config
import Rulebook.Run.Result

/-!
# Scripts of handlers

What an action does is a script: a tree of requests to the run, each with what is done upon its
answer.  A script can look at the target and replace it, halt the run, and ask for a parameter, as a
value or as a condition or branch to run.  It cannot reach anything else.  A request that fails
answers with the error, which a script passes on by raising it.
-/

namespace Rulebook

/-- Requests to a run that end in an `α`. -/
inductive Script (α : Type) where
  | done (a : α)
  | raise (e : RunError)
  | target (next : Value → Script α)
  | setTarget (v : Value) (next : Script α)
  | halt (next : Script α)
  /-- The value of a parameter. -/
  | value (index : Nat) (next : Except RunError Value → Script α)
  /-- The result of a parameter as a condition or branch. -/
  | run (index : Nat) (next : Except RunError Result → Script α)
  /-- The same with a stand-in for the target, and the stand-in after it. -/
  | runWith (index : Nat) (standIn : Value) (next : Except RunError (Result × Value) → Script α)

namespace Script

variable {α β : Type}

def bind : Script α → (α → Script β) → Script β
  | .done a, f => f a
  | .raise e, _ => .raise e
  | .target next, f => .target fun v => (next v).bind f
  | .setTarget v next, f => .setTarget v (next.bind f)
  | .halt next, f => .halt (next.bind f)
  | .value i next, f => .value i fun r => (next r).bind f
  | .run i next, f => .run i fun r => (next r).bind f
  | .runWith i v next, f => .runWith i v fun r => (next r).bind f

instance : Monad Script where
  pure := .done
  bind := Script.bind

/-- Goes on with an answer, or raises its error. -/
def ofAnswer : Except RunError α → Script α
  | .ok a => .done a
  | .error e => .raise e

def getTarget : Script Value := .target .done

def putTarget (v : Value) : Script Unit := .setTarget v (.done ())

def haltRun : Script Unit := .halt (.done ())

def getValue (index : Nat) : Script Value := .value index ofAnswer

def runParam (index : Nat) : Script Result := .run index ofAnswer

def runParamWith (index : Nat) (standIn : Value) : Script (Result × Value) :=
  .runWith index standIn ofAnswer

/-- The values of `n` parameters from `index` on, in order. -/
def valuesFrom (index : Nat) : Nat → Script (List Value)
  | 0 => return []
  | n + 1 => do
    let v ← getValue index
    let vs ← valuesFrom (index + 1) n
    return v :: vs

/-- The values of the first `n` parameters. -/
def values (n : Nat) : Script (List Value) := valuesFrom 0 n

end Script

/-- What a handler is told about an action. -/
structure Call where
  action : Action
  today : Date
  config : Config

/-- Number of parameters. -/
def Call.count (c : Call) : Nat := c.action.params.length

def Call.kind (c : Call) : ActionKind := c.action.kind

/-- How the actions of one kind are run and read. -/
structure Handler where
  script : Call → Script Result
  describe : Action → String := Action.describe

/-- The handler of a function on the target and the values of all parameters. -/
def Handler.ofFunction (f : Value → List Value → Result × Value) : Handler where
  script c := do
    let vs ← Script.values c.count
    let t ← Script.getTarget
    let (r, t) := f t vs
    Script.putTarget t
    return r

/-- Handlers by kind. -/
structure Registry where
  handler? : ActionKind → Option Handler

namespace Registry

def empty : Registry := ⟨fun _ => none⟩

/-- Puts a handler in the place of the one before. -/
def register (r : Registry) (kind : ActionKind) (h : Handler) : Registry :=
  ⟨fun k => if k = kind then some h else r.handler? k⟩

def contains (r : Registry) (kind : ActionKind) : Bool := (r.handler? kind).isSome

/-- The reading of an action by its handler. -/
def reading (r : Registry) (a : Action) : String :=
  negatedPhrase a.negative (match r.handler? a.kind with
    | some h => h.describe a
    | none => a.describe)

end Registry

end Rulebook
