import Rulebook.Run.Basic
import Rulebook.Sorting
import Rulebook.Step.Basic

/-!
# Running steps

A step runs its instructions in order; the first that fails ends the step.  When they complete, the
children run in increasing order, and the step's result becomes the cascade of theirs.  Nothing more
is started once the run is halted.  Each step that was entered leaves one entry in the trace, after
those of its children; an error leaves an entry for every step it passes.
-/

namespace Rulebook

/-! ## Cascades -/

/-- The result of a parent from those of its children.  Only Complete and Fail count; with nothing
to count the parent completes. -/
def Cascade.resolve (c : Cascade) (kinds : List ResultKind) : ResultKind :=
  let counted := kinds.filter fun k => k == .complete || k == .fail
  let passed := match c with
    | .anyOneFails => !counted.any (· == .fail)
    | .anyOneCompletes => counted.any (· == .complete)
    | .allMustComplete => counted.all (· == .complete)
    | .allMustFail => counted.all (· == .fail)
  if counted.isEmpty || passed then .complete else .fail

/-! ## The journal -/

/-- The result of a step that was entered. -/
structure TraceEntry where
  /-- Names of the steps from the root, joined by strokes. -/
  path : String
  result : Result

/-- The state of a run of steps. -/
structure Journal where
  state : RunState
  /-- Names of the steps that were entered and not yet left, from the root. -/
  path : List String := []
  trace : List TraceEntry := []

namespace Journal

def enter (j : Journal) (name : String) : Journal := { j with path := j.path ++ [name] }

/-- Records the result of the innermost step, which is left. -/
def leave (j : Journal) (r : Result) : Journal :=
  { j with path := j.path.dropLast, trace := j.trace ++ [⟨Text.join "/" j.path, r⟩] }

end Journal

/-- A computation on the journal, which is kept when it fails. -/
abbrev StepM (α : Type) := ExceptT RunError (StateM Journal) α

namespace StepM

/-- Runs actions. -/
def ofRun {α : Type} (x : RunM α) : StepM α := ExceptT.mk do
  let j ← get
  let (outcome, state) := x.run.run j.state
  set { j with state }
  return outcome

def isHalted : StepM Bool := do return (← get).state.halted

/-- Runs a step that is entered, and records its outcome. -/
def entered (name : String) (x : StepM Result) : StepM Result := ExceptT.mk do
  modify (·.enter name)
  match ← x.run with
  | .ok r =>
    modify (·.leave r)
    return .ok r
  | .error e =>
    modify (·.leave (.ofError e))
    return .error e

end StepM

/-! ## Instructions -/

namespace Instruction

def run (en : Engine) : Instruction → RunM Result
  | .action a => a.run en 0
  | .test c onComplete onFail => do
    let r ← c.run en 0
    match r.kind, onFail with
    | .complete, _ => onComplete.run en 0
    | .fail, some a => a.run en 0
    | _, _ => return r

/-- Runs instructions until one fails or the run is halted.  The result is the failure, or else the
last that is not NoAction; `last` is that of the instructions before. -/
def runAll (en : Engine) (last : Result) : List Instruction → RunM Result
  | [] => return last
  | i :: is => do
    let r ← i.run en
    if r.isFail then return r
    let last := if r.kind = .noAction then last else r
    if (← get).halted then return last
    runAll en last is

end Instruction

/-! ## Steps -/

namespace Step

/-- Runs children until the run is halted; the kinds of their results. -/
def runOrdered : List (StepM Result) → StepM (List ResultKind)
  | [] => return []
  | x :: xs => do
    if ← StepM.isHalted then return []
    let r ← x
    let kinds ← runOrdered xs
    return r.kind :: kinds

/-- The result of a step whose children gave these kinds. -/
def combine (cascade : Cascade) (own : Result) (kinds : List ResultKind) : Result :=
  match cascade.resolve kinds with
  | .fail =>
    { kind := .fail
      value := own.value
      failure := some ("children did not satisfy " ++ cascade.name) }
  | kind => { own with kind }

/-- The result of a step with children before they run. -/
def handOver (own : Result) : Result := if own.kind = .noAction then .complete else own

mutual

/-- Runs a step at a depth of the tree. -/
def runAt (en : Engine) : Step → Nat → StepM Result
  | ⟨name, _, instructions, cascade, children⟩, depth =>
    if en.maxDepth < depth then throw (.tooDeep en.maxDepth)
    else
      let runs := childRuns en children (depth + 1)
      StepM.entered name do
        let own ← StepM.ofRun (Instruction.runAll en .noAction instructions)
        if runs.isEmpty then return own
        let own := handOver own
        if !own.isComplete || (← StepM.isHalted) then return own
        let kinds ← runOrdered ((sortOn Prod.fst runs).map Prod.snd)
        return combine cascade own kinds

/-- The runs of children, each with its place in the order. -/
def childRuns (en : Engine) : List Step → Nat → List (Int × StepM Result)
  | [], _ => []
  | ⟨name, order, instructions, cascade, children⟩ :: ss, depth =>
    (order, runAt en ⟨name, order, instructions, cascade, children⟩ depth) ::
      childRuns en ss depth

end

/-- Runs a step tree. -/
def run (en : Engine) (s : Step) : StepM Result := s.runAt en 0

end Step

end Rulebook
