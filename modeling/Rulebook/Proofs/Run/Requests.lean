import Rulebook.Proofs.Outcome
import Rulebook.Run.Basic

/-!
# Requests of scripts

How scripts end from a state, as equations, and which parameters they ask for on the way.  What a
script comes to is up to its parameters in the states where it asks for them:

    they agree at script.asked kind params s
      →   outcome (script.exec kind params) s = outcome (script.exec kind params') s
-/

namespace Rulebook

variable {α β : Type}

namespace RunM

theorem outcome_observe (x : RunM α) (s : RunState) :
    outcome (observe x) s = (.ok (outcome x s).1, (outcome x s).2) := rfl

/-- What follows goes on with the outcome. -/
theorem outcome_observe_bind (x : RunM α) (f : Except RunError α → RunM β)
    (s : RunState) : outcome (observe x >>= f) s = outcome (f (outcome x s).1) (outcome x s).2 := by
  rw [outcome_bind, outcome_observe, continued]

theorem outcome_target (s : RunState) : outcome target s = (.ok s.target, s) := rfl

theorem outcome_setTarget (v : Value) (s : RunState) :
    outcome (setTarget v) s = (.ok (), { s with target := v }) := rfl

/-- The target is as before, and what became of the stand-in is told when the run returns. -/
theorem outcome_withTarget (standIn : Value) (x : RunM α) (s : RunState) :
    outcome (withTarget standIn x) s =
      ((outcome x { s with target := standIn }).1.map fun a =>
          (a, (outcome x { s with target := standIn }).2.target),
        { (outcome x { s with target := standIn }).2 with target := s.target }) := by
  rw [withTarget, outcome_bind, outcome_target, continued, outcome_bind, outcome_setTarget,
    continued, outcome_observe_bind]
  generalize outcome x { s with target := standIn } = r
  obtain ⟨e | a, t⟩ := r <;> rfl

/-- Runs that end alike with the stand-in as the target end alike with it. -/
theorem outcome_withTarget_congr {x y : RunM α} {standIn : Value} {s : RunState}
    (h : outcome x { s with target := standIn } = outcome y { s with target := standIn }) :
    outcome (withTarget standIn x) s = outcome (withTarget standIn y) s := by
  rw [outcome_withTarget, outcome_withTarget, h]

end RunM

/-! ## Requests -/

/-- The parameter that a request asks for. -/
def ParamRun.at (kind : ActionKind) (params : List ParamRun) (index : Nat) : ParamRun :=
  params[index]?.getD (.missing kind index)

/-- The parameters end alike from a state. -/
structure ParamRun.Agree (p q : ParamRun) (s : RunState) : Prop where
  value : outcome p.value s = outcome q.value s
  run : outcome p.run s = outcome q.run s

namespace Script

/-- The parameters that a script asks for, each with the state in which it does. -/
def asked (kind : ActionKind) (params : List ParamRun) :
    Script α → RunState → List (Nat × RunState)
  | .done _, _ => []
  | .raise _, _ => []
  | .target next, s => (next s.target).asked kind params s
  | .setTarget v next, s => next.asked kind params { s with target := v }
  | .halt next, s => next.asked kind params { s with halted := true }
  | .value i next, s =>
    let answer := outcome (ParamRun.at kind params i).value s
    (i, s) :: (next answer.1).asked kind params answer.2
  | .run i next, s =>
    let answer := outcome (ParamRun.at kind params i).run s
    (i, s) :: (next answer.1).asked kind params answer.2
  | .runWith i v next, s =>
    let answer := outcome (RunM.withTarget v (ParamRun.at kind params i).run) s
    (i, { s with target := v }) :: (next answer.1).asked kind params answer.2

/-! ## Running scripts -/

variable {kind : ActionKind} {params params' : List ParamRun}

theorem outcome_exec_value (i : Nat) (next : Except RunError Value → Script α) (s : RunState) :
    outcome ((value i next).exec kind params) s =
      outcome ((next (outcome (ParamRun.at kind params i).value s).1).exec kind params)
        (outcome (ParamRun.at kind params i).value s).2 := by
  rw [exec, RunM.outcome_observe_bind, ParamRun.at]

theorem outcome_exec_run (i : Nat) (next : Except RunError Result → Script α) (s : RunState) :
    outcome ((run i next).exec kind params) s =
      outcome ((next (outcome (ParamRun.at kind params i).run s).1).exec kind params)
        (outcome (ParamRun.at kind params i).run s).2 := by
  rw [exec, RunM.outcome_observe_bind, ParamRun.at]

theorem outcome_exec_runWith (i : Nat) (v : Value)
    (next : Except RunError (Result × Value) → Script α) (s : RunState) :
    outcome ((runWith i v next).exec kind params) s =
      outcome ((next (outcome (RunM.withTarget v (ParamRun.at kind params i).run) s).1).exec kind
        params) (outcome (RunM.withTarget v (ParamRun.at kind params i).run) s).2 := by
  rw [exec, RunM.outcome_observe_bind, ParamRun.at]

/-- A script goes on with what the one before it returned. -/
theorem outcome_exec_bind (x : Script α) (f : α → Script β) (s : RunState) :
    outcome ((x >>= f).exec kind params) s =
      continued (fun a => (f a).exec kind params) (outcome (x.exec kind params) s) := by
  show outcome ((x.bind f).exec kind params) s = _
  induction x generalizing s with
  | done a => rfl
  | raise e => rfl
  | target next ih => exact ih s.target s
  | setTarget v next ih => exact ih _
  | halt next ih => exact ih _
  | value i next ih => rw [bind, outcome_exec_value, outcome_exec_value, ih]
  | run i next ih => rw [bind, outcome_exec_run, outcome_exec_run, ih]
  | runWith i v next ih => rw [bind, outcome_exec_runWith, outcome_exec_runWith, ih]

theorem outcome_exec_runParam (i : Nat) (s : RunState) :
    outcome ((runParam i).exec kind params) s = outcome (ParamRun.at kind params i).run s := by
  rw [runParam, outcome_exec_run]
  rcases outcome (ParamRun.at kind params i).run s with ⟨e | r, t⟩ <;> rfl

theorem outcome_exec_getValue {i : Nat} {v : Value} {s t : RunState}
    (h : outcome (ParamRun.at kind params i).value s = (.ok v, t)) :
    outcome ((getValue i).exec kind params) s = (.ok v, t) := by
  rw [getValue, outcome_exec_value, h]
  rfl

theorem outcome_exec_getValue_pure {i : Nat} {v : Value} {s : RunState}
    (h : (ParamRun.at kind params i).value = pure v) :
    outcome ((getValue i).exec kind params) s = (.ok v, s) :=
  outcome_exec_getValue (by rw [h]; rfl)

/-- Parameters that agree where they are asked for make the same run. -/
theorem exec_congr {script : Script α} {s : RunState} (h : ∀ x ∈ script.asked kind params s,
      (ParamRun.at kind params x.1).Agree (ParamRun.at kind params' x.1) x.2) :
    outcome (script.exec kind params) s = outcome (script.exec kind params') s := by
  -- the answers are the same, so the states in which the rest asks are those of `params` too
  induction script generalizing s with
  | done a => rfl
  | raise e => rfl
  | target next ih => exact ih s.target h
  | setTarget v next ih => exact ih h
  | halt next ih => exact ih h
  | value i next ih =>
    obtain ⟨hi, hnext⟩ := List.forall_mem_cons.1 h
    rw [outcome_exec_value, outcome_exec_value, ← hi.value]
    exact ih _ hnext
  | run i next ih =>
    obtain ⟨hi, hnext⟩ := List.forall_mem_cons.1 h
    rw [outcome_exec_run, outcome_exec_run, ← hi.run]
    exact ih _ hnext
  | runWith i v next ih =>
    obtain ⟨hi, hnext⟩ := List.forall_mem_cons.1 h
    rw [outcome_exec_runWith, outcome_exec_runWith, ← RunM.outcome_withTarget_congr hi.run]
    exact ih _ hnext

/-- They are asked for in the same states, too. -/
theorem asked_congr {script : Script α} {s : RunState} (h : ∀ x ∈ script.asked kind params s,
      (ParamRun.at kind params x.1).Agree (ParamRun.at kind params' x.1) x.2) :
    script.asked kind params s = script.asked kind params' s := by
  induction script generalizing s with
  | done a => rfl
  | raise e => rfl
  | target next ih => exact ih s.target h
  | setTarget v next ih => exact ih h
  | halt next ih => exact ih h
  | value i next ih =>
    obtain ⟨hi, hnext⟩ := List.forall_mem_cons.1 h
    rw [asked, asked, ← hi.value]
    exact congrArg _ (ih _ hnext)
  | run i next ih =>
    obtain ⟨hi, hnext⟩ := List.forall_mem_cons.1 h
    rw [asked, asked, ← hi.run]
    exact congrArg _ (ih _ hnext)
  | runWith i v next ih =>
    obtain ⟨hi, hnext⟩ := List.forall_mem_cons.1 h
    rw [asked, asked, ← RunM.outcome_withTarget_congr hi.run]
    exact congrArg _ (ih _ hnext)

theorem asked_runParam (i : Nat) (s : RunState) :
    (runParam i).asked kind params s = [(i, s)] := by
  rw [runParam, asked]
  rcases outcome (ParamRun.at kind params i).run s with ⟨e | r, t⟩ <;> rfl

/-- What follows asks for more if the parameter returned. -/
theorem asked_runParam_bind (i : Nat) (f : Result → Script α) (s : RunState) :
    (runParam i >>= f).asked kind params s =
      (i, s) :: match outcome (ParamRun.at kind params i).run s with
        | (.ok r, t) => (f r).asked kind params t
        | (.error _, _) => [] := by
  show (Script.run i fun r => (ofAnswer r).bind f).asked kind params s = _
  rw [asked]
  rcases outcome (ParamRun.at kind params i).run s with ⟨e | r, t⟩ <;> rfl

end Script

end Rulebook
