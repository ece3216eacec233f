import Rulebook.Proofs.Outcome
import Rulebook.Rule.Evaluate

/-!
# Outcomes of tests

How the parts of a test end from a state, as equations.
-/

namespace Rulebook

/-- The evaluation that the end of a test gives. -/
def Evaluation.ofOutcome : Except EvalError Bool × TestState → Except EvalError Evaluation
  | (.ok passed, s) => .ok (s.finish passed)
  | (.error e, _) => .error e

theorem Rule.evaluate_eq (ev : Evaluator) (r : Rule) (v : Value) :
    r.evaluate ev v = Evaluation.ofOutcome (outcome (r.test ev 0) { value := v }) := by
  unfold Rule.evaluate
  show (match outcome (r.test ev 0) { value := v } with
    | (.ok passed, s) => Except.ok (s.finish passed)
    | (.error e, _) => .error e) = _
  rcases outcome (r.test ev 0) { value := v } with ⟨e | passed, s⟩ <;> rfl

theorem Rule.evaluate_eq_error_iff {ev : Evaluator} {r : Rule} {v : Value} {e : EvalError} :
    r.evaluate ev v = .error e ↔ (outcome (r.test ev 0) { value := v }).1 = .error e := by
  rw [evaluate_eq]
  rcases outcome (r.test ev 0) { value := v } with ⟨e' | passed, s⟩ <;>
    simp [Evaluation.ofOutcome]

theorem Rule.evaluate_eq_ok {ev : Evaluator} {r : Rule} {v : Value} {o : Evaluation}
    (h : r.evaluate ev v = .ok o) :
    outcome (r.test ev 0) { value := v } = (.ok o.passed, ⟨o.value, o.diagnostics⟩) := by
  rw [evaluate_eq] at h
  generalize outcome (r.test ev 0) { value := v } = t at h ⊢
  obtain ⟨e | passed, s⟩ := t
  · cases h
  · cases h
    rfl

namespace TestM

/-- The end of a test whose diagnostics are taken back when it passes. -/
def quiet (mark : Nat) : Except EvalError Bool × TestState → Except EvalError Bool × TestState
  | (.ok true, s) => (.ok true, s.truncate mark)
  | r => r

theorem outcome_quietIfPassed (test : TestM Bool) (s : TestState) :
    outcome (quietIfPassed test) s = quiet s.mark (outcome test s) := by
  have h : outcome (quietIfPassed test) s = continued (fun passed => do
      if passed then modify (·.truncate s.mark)
      return passed) (outcome test s) := by
    rw [quietIfPassed, outcome_bind, outcome_get]
    exact outcome_bind _ _ _
  rw [h]
  rcases outcome test s with ⟨e | passed, t⟩
  · rfl
  · cases passed <;> rfl

end TestM

end Rulebook
