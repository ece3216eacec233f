import Rulebook.Proofs.Run.Requests

/-!
# Runs that reach no limit

`a.isWithin en depth s` says that no action that is run, when `a` is run from `s`, is nested too
deep.  It follows the run: a branch that is not taken does not count.  A run within the limit does
not depend on its depth:

    a.isWithin en (depth + 1) s   →   outcome (a.run en (depth + 1)) s = outcome (a.run en depth) s
-/

namespace Rulebook

namespace Action

mutual

/-- No action that is run when this one is, from this state, is nested too deep. -/
def isWithin (en : Engine) : Action → Nat → RunState → Bool
  | ⟨kind, name, params, negative, isTest, source⟩, depth, s =>
    decide (depth ≤ en.maxDepth) && match en.registry.handler? kind with
      | none => true
      | some h =>
        let call : Call :=
          ⟨⟨kind, name, params, negative, isTest, source⟩, en.today, en.evaluator.config⟩
        ((h.script call).asked kind (runParams en params (depth + 1)) s).all fun x =>
          areWithin en params x.1 (depth + 1) x.2

/-- The same of the parameter with an index. -/
def areWithin (en : Engine) : List (ParamOf Action) → Nat → Nat → RunState → Bool
  | [], _, _, _ => true
  | p :: _, 0, depth, s => paramIsWithin en p depth s
  | _ :: ps, i + 1, depth, s => areWithin en ps i depth s

def paramIsWithin (en : Engine) : ParamOf Action → Nat → RunState → Bool
  | .action a, depth, s => isWithin en a depth s
  | .literal _, _, _ => true
  | .reference _ _, _, _ => true
  | .rule _, _, _ => true

end

/-- The same, the fields of the action apart. -/
theorem isWithin_eq (en : Engine) (a : Action) (depth : Nat) (s : RunState) :
    a.isWithin en depth s = (decide (depth ≤ en.maxDepth) &&
      match en.registry.handler? a.kind with
      | none => true
      | some h => ((h.script ⟨a, en.today, en.evaluator.config⟩).asked a.kind
          (runParams en a.params (depth + 1)) s).all fun x =>
            areWithin en a.params x.1 (depth + 1) x.2) := by
  obtain ⟨kind, name, params, negative, isTest, source⟩ := a
  rw [isWithin]

theorem areWithin_eq {en : Engine} {ps : List Param} {i : Nat} {p : Param} (h : ps[i]? = some p)
    (depth : Nat) (s : RunState) : areWithin en ps i depth s = paramIsWithin en p depth s := by
  induction ps generalizing i with
  | nil => cases h
  | cons q ps ih =>
    cases i with
    | zero =>
      cases h
      rfl
    | succ i => exact ih h

mutual

/-- A run within the limit is the same one level up. -/
theorem run_eq_of_isWithin (en : Engine) : ∀ (a : Action) (depth : Nat) (s : RunState),
    a.isWithin en (depth + 1) s = true →
      outcome (a.run en (depth + 1)) s = outcome (a.run en depth) s
  | ⟨kind, name, params, negative, isTest, source⟩, depth, s, h => by
    rw [isWithin, Bool.and_eq_true, decide_eq_true_eq] at h
    obtain ⟨hdepth, hasked⟩ := h
    rw [run, run, if_neg (by omega), if_neg (by omega)]
    split
    · rfl
    · next hh =>
      rw [hh] at hasked
      rw [outcome_bind, outcome_bind, Script.exec_congr fun x hx => runParams_agree en params kind
        x.1 x.1 (depth + 1) x.2 (List.all_eq_true.1 hasked x hx)]

theorem runParams_agree (en : Engine) : ∀ (ps : List (ParamOf Action)) (kind : ActionKind)
    (index i depth : Nat) (s : RunState), areWithin en ps i (depth + 1) s = true →
      (((runParams en ps (depth + 1))[i]?.getD (.missing kind index)).Agree
        ((runParams en ps depth)[i]?.getD (.missing kind index)) s)
  | [], _, _, _, _, _, _ => ⟨rfl, rfl⟩
  | p :: _, _, _, 0, depth, s, h => runParam_agree en p depth s h
  | _ :: ps, kind, index, i + 1, depth, s, h => runParams_agree en ps kind index i depth s h

theorem runParam_agree (en : Engine) : ∀ (p : ParamOf Action) (depth : Nat) (s : RunState),
    paramIsWithin en p (depth + 1) s = true →
      (runParam en p (depth + 1)).Agree (runParam en p depth) s
  | .literal _, _, _, _ => ⟨rfl, rfl⟩
  | .reference _ _, _, _, _ => ⟨rfl, rfl⟩
  | .rule _, _, _, _ => ⟨rfl, rfl⟩
  | .action a, depth, s, h => by
    have hrun := run_eq_of_isWithin en a depth s h
    refine ⟨?_, hrun⟩
    show outcome (ParamRun.ofAction (a.run en (depth + 1))).value s =
      outcome (ParamRun.ofAction (a.run en depth)).value s
    rw [ParamRun.ofAction, ParamRun.ofAction, outcome_bind, outcome_bind, hrun]

end

mutual

/-- What is within the limit is so one level up, since it asks for the same there. -/
theorem isWithin_of_succ (en : Engine) : ∀ (a : Action) (depth : Nat) (s : RunState),
    a.isWithin en (depth + 1) s = true → a.isWithin en depth s = true
  | ⟨kind, name, params, negative, isTest, source⟩, depth, s, h => by
    rw [isWithin, Bool.and_eq_true, decide_eq_true_eq] at h ⊢
    obtain ⟨hdepth, hasked⟩ := h
    refine ⟨by omega, ?_⟩
    cases hh : en.registry.handler? kind with
    | none => rfl
    | some handler =>
      rw [hh] at hasked
      have hall := List.all_eq_true.1 hasked
      dsimp only at hall ⊢
      rw [← Script.asked_congr fun x hx => runParams_agree en params kind x.1 x.1 (depth + 1) x.2
        (hall x hx)]
      exact List.all_eq_true.2 fun x hx =>
        areWithin_of_succ en params x.1 (depth + 1) x.2 (hall x hx)

theorem areWithin_of_succ (en : Engine) : ∀ (ps : List (ParamOf Action)) (i depth : Nat)
    (s : RunState), areWithin en ps i (depth + 1) s = true → areWithin en ps i depth s = true
  | [], _, _, _, _ => rfl
  | p :: _, 0, depth, s, h => paramIsWithin_of_succ en p depth s h
  | _ :: ps, i + 1, depth, s, h => areWithin_of_succ en ps i depth s h

theorem paramIsWithin_of_succ (en : Engine) : ∀ (p : ParamOf Action) (depth : Nat) (s : RunState),
    paramIsWithin en p (depth + 1) s = true → paramIsWithin en p depth s = true
  | .literal _, _, _, _ => rfl
  | .reference _ _, _, _, _ => rfl
  | .rule _, _, _, _ => rfl
  | .action a, depth, s, h => isWithin_of_succ en a depth s h

end

/-- Within the limit, what an action does is what its script does with the parameters run at the
depth of the action itself. -/
theorem run_of_isWithin {en : Engine} {a : Action} {depth : Nat} {s : RunState} {h : Handler}
    (hhandler : en.registry.handler? a.kind = some h) (hwithin : a.isWithin en depth s = true) :
    outcome (a.run en depth) s =
      continued (fun r => pure (if a.negative then r.negated else r))
        (outcome ((h.script ⟨a, en.today, en.evaluator.config⟩).exec a.kind
          (runParams en a.params depth)) s) := by
  obtain ⟨kind, name, params, negative, isTest, source⟩ := a
  rw [isWithin, Bool.and_eq_true, decide_eq_true_eq, hhandler] at hwithin
  rw [run, if_neg (Nat.not_lt.2 hwithin.1), hhandler]
  dsimp only
  rw [outcome_bind, Script.exec_congr fun x hx => runParams_agree en params kind x.1 x.1 depth x.2
    (List.all_eq_true.1 hwithin.2 x hx)]

end Action

end Rulebook
