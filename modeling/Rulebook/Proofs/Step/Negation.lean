import Rulebook.Proofs.Run.Builtin
import Rulebook.Proofs.Run.Nested
import Rulebook.Proofs.Step.Journal

/-!
# Negation

An action and its negation do the same to a journal and raise the same errors.  When they return,
their results have the same value; Complete and Fail are flipped, and other kinds are the same:

    outcome (ofRun (a.run en depth)) j = (.ok r, k)
      →  outcome (ofRun (a.negate.run en depth)) j = (.ok r', k)
         with  r'.kind = r.kind.flipped,  r'.value = r.value

(`run_negate`).  No script of the engine sees the mark of negation or the text of its action.
-/

namespace Rulebook

/-! ## Results -/

/-- Complete for Fail and Fail for Complete; the other kinds are not negated. -/
def ResultKind.flipped : ResultKind → ResultKind
  | .complete => .fail
  | .fail => .complete
  | kind => kind

@[simp] theorem ResultKind.flipped_flipped (kind : ResultKind) : kind.flipped.flipped = kind := by
  cases kind <;> rfl

@[simp] theorem Result.kind_negated (r : Result) : r.negated.kind = r.kind.flipped := by
  obtain ⟨kind, value, failure⟩ := r
  cases kind <;> rfl

@[simp] theorem Result.value_negated (r : Result) : r.negated.value = r.value := by
  obtain ⟨kind, value, failure⟩ := r
  cases kind <;> rfl

/-- The same error, or results of the same value with the kinds flipped. -/
inductive Flipped : Except RunError Result → Except RunError Result → Prop
  | error (e : RunError) : Flipped (.error e) (.error e)
  | ok {r r' : Result} : r'.kind = r.kind.flipped → r'.value = r.value → Flipped (.ok r) (.ok r')

/-! ## Runs -/

namespace Action

variable {en : Engine}

/-- The run of an action apart from its negation. -/
def attempt (en : Engine) (a : Action) (depth : Nat) : RunM Result :=
  if en.maxDepth < depth then throw (.tooDeep en.maxDepth)
  else match en.registry.handler? a.kind with
    | none => throw (.noHandler a.kind)
    | some h => (h.script ⟨a, en.today, en.evaluator.config⟩).exec a.kind
      (runParams en a.params (depth + 1))

/-- What a negative action makes of the result of its attempt. -/
def judged (a : Action) (r : Result) : Result := if a.negative then r.negated else r

theorem outcome_run (a : Action) (depth : Nat) (s : RunState) : outcome (a.run en depth) s =
    continued (fun r => pure (a.judged r)) (outcome (a.attempt en depth) s) := by
  rw [run_eq, attempt]
  by_cases hdepth : en.maxDepth < depth
  · rw [if_pos hdepth, if_pos hdepth]
    rfl
  · rw [if_neg hdepth, if_neg hdepth]
    cases en.registry.handler? a.kind with
    | none => rfl
    | some h => exact outcome_bind _ _ s

theorem flipped_judged (a : Action) (r : Result) :
    Flipped (.ok (a.judged r)) (.ok (a.negate.judged r)) := by
  unfold judged negate
  cases a.negative with
  | true => exact .ok (by simp) (by simp)
  | false => exact .ok (by simp) (by simp)

/-- No handler of the engine tells an action from its negation. -/
theorem attempt_negate (hreg : en.registry = .builtin) (a : Action) :
    a.negate.attempt en = a.attempt en := by
  funext depth
  have hkind : a.negate.kind = a.kind := rfl
  have hparams : a.negate.params = a.params := rfl
  unfold attempt
  rw [hkind, hparams]
  split
  · rfl
  split
  · rfl
  · next h hh =>
    rw [Builtin.script_congr (Registry.script?_of_builtin hreg hh) hkind hparams]

/-- **Negation only flips the verdict**: the errors are the same, or else the values, and so are the
journals afterwards. -/
theorem run_negate (hreg : en.registry = .builtin) (a : Action) (depth : Nat) (j : Journal) :
    (outcome (StepM.ofRun (a.negate.run en depth)) j).2 =
        (outcome (StepM.ofRun (a.run en depth)) j).2 ∧
      Flipped (outcome (StepM.ofRun (a.run en depth)) j).1
        (outcome (StepM.ofRun (a.negate.run en depth)) j).1 := by
  rw [StepM.outcome_ofRun, StepM.outcome_ofRun, outcome_run a.negate, outcome_run a,
    attempt_negate hreg]
  rcases outcome (a.attempt en depth) j.state with ⟨e | r, t⟩
  · exact ⟨rfl, .error e⟩
  · exact ⟨rfl, flipped_judged a r⟩

/-- `SWITCH('a',SET('x'),SET('y'))` sets `y` where `b` was, and so does its negation, which has
failed with it. -/
theorem run_negate_switch :
    let en : Engine := { registry := .builtin, today := .earliest }
    let a : Action := .of .switch [.literal (.text "a"), .action (.of .set [.literal (.text "x")]),
      .action (.of .set [.literal (.text "y")])]
    let j : Journal := { state := { target := .text "b" } }
    outcome (StepM.ofRun (a.run en 0)) j =
        (.ok (.completeWith (.text "y")), { j with state.target := .text "y" }) ∧
      ∃ r, outcome (StepM.ofRun (a.negate.run en 0)) j =
          (.ok r, { j with state.target := .text "y" }) ∧
        r.kind = .fail ∧ r.value = some (.text "y") := by
  intro en a j
  have hrun : outcome (StepM.ofRun (a.run en 0)) j =
      (.ok (.completeWith (.text "y")), { j with state.target := .text "y" }) := by
    dsimp only [en, a, j]
    rfl
  have hreg : en.registry = .builtin := rfl
  obtain ⟨hjournal, hflipped⟩ := run_negate hreg a 0 j
  rw [hrun] at hjournal hflipped
  rcases hnegated : outcome (StepM.ofRun (a.negate.run en 0)) j with ⟨e | r, k⟩
  · rw [hnegated] at hflipped
    cases hflipped
  · rw [hnegated] at hjournal hflipped
    cases hjournal
    cases hflipped with
    | ok hkind hvalue => exact ⟨hrun, r, rfl, hkind, hvalue⟩

end Action

end Rulebook
