import Rulebook.Proofs.Outcome
import Rulebook.Step.Run

/-!
# Outcomes of steps

How the parts of a run of steps end from a journal, as equations.  A step that was entered restores
the path when what it did restored it:

    outcome (entered name x) j = left (outcome x (j.enter name))
-/

namespace Rulebook

namespace StepM

theorem outcome_ofRun {α : Type} (x : RunM α) (j : Journal) :
    outcome (ofRun x) j = ((outcome x j.state).1, { j with state := (outcome x j.state).2 }) := rfl

theorem outcome_isHalted (j : Journal) : outcome isHalted j = (.ok j.state.halted, j) := rfl

/-- The end of a step that was entered, with its entry in the trace. -/
def left : Except RunError Result × Journal → Except RunError Result × Journal
  | (.ok r, j) => (.ok r, j.leave r)
  | (.error e, j) => (.error e, j.leave (.ofError e))

theorem outcome_entered (name : String) (x : StepM Result) (j : Journal) :
    outcome (entered name x) j = left (outcome x (j.enter name)) := by
  have hx : x.run.run (j.enter name) = outcome x (j.enter name) := rfl
  rw [outcome, entered, ExceptT.run_mk, StateT.run_bind, StateT.run_modify, pure_bind,
    StateT.run_bind, hx]
  rcases outcome x (j.enter name) with ⟨e | r, t⟩
  · rfl
  · rfl

end StepM

namespace Step

/-- The children's runs are those of the children. -/
theorem childRuns_eq_map (en : Engine) (ss : List Step) (depth : Nat) :
    childRuns en ss depth = ss.map fun s => (s.order, s.runAt en depth) := by
  induction ss with
  | nil => rfl
  | cons s ss ih =>
    obtain ⟨name, order, instructions, cascade, children⟩ := s
    rw [childRuns, ih, List.map_cons]

/-- The children's runs in the order in which they are made. -/
theorem ordered_childRuns (en : Engine) (ss : List Step) (depth : Nat) :
    (sortOn Prod.fst (childRuns en ss depth)).map Prod.snd =
      (sortOn Step.order ss).map fun s => s.runAt en depth := by
  rw [childRuns_eq_map, sortOn_map, List.map_map]
  rfl

theorem outcome_runOrdered_halted (x : StepM Result) (xs : List (StepM Result)) {j : Journal}
    (h : j.state.halted = true) : outcome (runOrdered (x :: xs)) j = (.ok [], j) := by
  rw [runOrdered, outcome_bind, StepM.outcome_isHalted, continued, if_pos h]
  rfl

theorem outcome_runOrdered_cons (x : StepM Result) (xs : List (StepM Result)) {j : Journal}
    (h : j.state.halted = false) : outcome (runOrdered (x :: xs)) j =
      continued (fun r => do return r.kind :: (← runOrdered xs)) (outcome x j) := by
  rw [runOrdered, outcome_bind, StepM.outcome_isHalted, continued,
    if_neg (Bool.eq_false_iff.1 h), outcome_bind]

/-- What a step does once it is entered. -/
def body (en : Engine) (s : Step) (depth : Nat) : StepM Result := do
  let own ← StepM.ofRun (Instruction.runAll en .noAction s.instructions)
  if s.children = [] then return own
  let halted ← StepM.isHalted
  if (handOver own).isComplete = false ∨ halted = true then return handOver own
  let kinds ← runOrdered ((sortOn Step.order s.children).map fun c => c.runAt en (depth + 1))
  return combine s.cascade (handOver own) kinds

theorem runAt_entered {en : Engine} {s : Step} {depth : Nat} (h : depth ≤ en.maxDepth) :
    s.runAt en depth = StepM.entered s.name (s.body en depth) := by
  obtain ⟨name, order, instructions, cascade, children⟩ := s
  rw [runAt, if_neg (Nat.not_lt.2 h)]
  simp only [ordered_childRuns]
  simp only [childRuns_eq_map, List.isEmpty_map, List.isEmpty_iff, Bool.or_eq_true,
    Bool.not_eq_true', body]

/-- Of its instructions a run depends only on what they come to. -/
theorem run_congr {en : Engine} {s : Step} {is is' : List Instruction} {j : Journal}
    (h : outcome (Instruction.runAll en .noAction is) j.state =
      outcome (Instruction.runAll en .noAction is') j.state) :
    outcome (({ s with instructions := is } : Step).run en) j =
      outcome (({ s with instructions := is' } : Step).run en) j := by
  have hrun (s : Step) : s.run en = StepM.entered s.name (s.body en 0) :=
    runAt_entered (Nat.zero_le _)
  rw [hrun, hrun, StepM.outcome_entered, StepM.outcome_entered, body, body, outcome_bind,
    outcome_bind, StepM.outcome_ofRun, StepM.outcome_ofRun]
  dsimp only [Journal.enter]
  rw [h]

theorem runAt_tooDeep {en : Engine} {s : Step} {depth : Nat} (h : en.maxDepth < depth) :
    s.runAt en depth = throw (.tooDeep en.maxDepth) := by
  obtain ⟨name, order, instructions, cascade, children⟩ := s
  rw [runAt, if_pos h]

theorem runAt_refused {en : Engine} {s : Step} {depth : Nat} (h : en.maxDepth < depth)
    (j : Journal) : outcome (s.runAt en depth) j = (.error (.tooDeep en.maxDepth), j) := by
  rw [runAt_tooDeep h, outcome_throw]

end Step

end Rulebook
