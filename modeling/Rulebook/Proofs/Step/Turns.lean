import Rulebook.Proofs.Outcome
import Rulebook.Step.Run

/-!
# Turns of instructions

A turn is an instruction that was run, with what it came to and the states around it.  The turns of
instructions in a row say all that running them does:

    outcome (runAll en .noAction is) t =
      ((turns en t is).mapM Turn.result).map ownResult, state after the last turn

No turn follows one that fails, raises an error or leaves the run halted.
-/

namespace Rulebook

/-- An instruction that was run. -/
structure Turn where
  instruction : Instruction
  before : RunState
  result : Except RunError Result
  after : RunState

namespace Turn

/-- The turn that an instruction takes from a state. -/
def of (en : Engine) (t : RunState) (i : Instruction) : Turn where
  instruction := i
  before := t
  result := (outcome (i.run en) t).1
  after := (outcome (i.run en) t).2

/-- Whether another instruction may be run after it. -/
def goesOn (x : Turn) : Bool :=
  match x.result with
  | .ok r => !r.isFail && !x.after.halted
  | .error _ => false

theorem not_halted_of_goesOn {x : Turn} (h : x.goesOn = true) : x.after.halted = false := by
  unfold goesOn at h
  split at h
  · simpa using (Bool.and_eq_true_iff.1 h).2
  · cases h

end Turn

namespace Instruction

variable {en : Engine} {is : List Instruction} {t : RunState} {last r : Result} {rs : List Result}

/-- The turns of instructions in a row. -/
def turns (en : Engine) (t : RunState) : List Instruction → List Turn
  | [] => []
  | i :: is =>
    Turn.of en t i :: if (Turn.of en t i).goesOn then turns en (Turn.of en t i).after is else []

/-! ## What they come to -/

/-- The first failure, or else the last result that is not NoAction, or else `last`. -/
def keptResult (last : Result) (rs : List Result) : Result :=
  (rs.find? Result.isFail).getD ((rs.filter fun r => r.kind ≠ .noAction).getLast?.getD last)

/-- What a step comes to by its own instructions. -/
def ownResult (rs : List Result) : Result := keptResult .noAction rs

theorem keptResult_cons_fail (h : r.isFail = true) : keptResult last (r :: rs) = r := by
  rw [keptResult, List.find?_cons_of_pos h, Option.getD_some]

theorem keptResult_cons (h : r.isFail = false) :
    keptResult last (r :: rs) = keptResult (if r.kind = .noAction then last else r) rs := by
  rw [keptResult, keptResult, List.find?_cons_of_neg (Bool.eq_false_iff.1 h)]
  by_cases hkind : r.kind = .noAction
  · rw [List.filter_cons_of_neg (by simpa using hkind), if_pos hkind]
  · rw [List.filter_cons_of_pos (by simpa using hkind), if_neg hkind, List.getLast?_cons,
      Option.getD_some]

/-- The state after turns that began in `t`. -/
def stateAfter (t : RunState) (xs : List Turn) : RunState := (xs.getLast?.map Turn.after).getD t

theorem stateAfter_cons (t : RunState) (x : Turn) (xs : List Turn) :
    stateAfter t (x :: xs) = stateAfter x.after xs := by
  rw [stateAfter, stateAfter, List.getLast?_cons]
  cases xs.getLast? <;> rfl

/-- After a turn that ends the row. -/
theorem outcome_runAll_of_ends {i : Instruction} (h : (Turn.of en t i).goesOn = false) :
    outcome (runAll en last (i :: is)) t =
      ((Turn.of en t i).result.map fun r => keptResult last [r], (Turn.of en t i).after) := by
  rw [Turn.goesOn, Turn.of] at h
  rw [runAll, Turn.of, outcome_bind]
  generalize outcome (i.run en) t = x at h ⊢
  obtain ⟨e | r, u⟩ := x
  · rfl
  dsimp only [continued, Except.map] at h ⊢
  by_cases hfail : r.isFail = true
  · rw [if_pos hfail, keptResult_cons_fail hfail]
    rfl
  · rw [Bool.not_eq_true] at hfail
    have hhalted : u.halted = true := by simpa [hfail] using h
    rw [if_neg (Bool.eq_false_iff.1 hfail), keptResult_cons hfail, outcome_bind, outcome_get,
      continued, if_pos hhalted]
    rfl

/-- After a turn that does not. -/
theorem outcome_runAll_of_goesOn {i : Instruction} (h : (Turn.of en t i).goesOn = true) :
    ∃ r, (Turn.of en t i).result = .ok r ∧ r.isFail = false ∧
      outcome (runAll en last (i :: is)) t =
        outcome (runAll en (if r.kind = .noAction then last else r) is) (Turn.of en t i).after := by
  rw [Turn.goesOn, Turn.of] at h
  rw [runAll, Turn.of, outcome_bind]
  generalize outcome (i.run en) t = x at h ⊢
  obtain ⟨e | r, u⟩ := x
  · cases h
  obtain ⟨hfail, hhalted⟩ : r.isFail = false ∧ u.halted = false := by simpa using h
  refine ⟨r, rfl, hfail, ?_⟩
  dsimp only [continued]
  rw [if_neg (Bool.eq_false_iff.1 hfail), outcome_bind, outcome_get, continued,
    if_neg (Bool.eq_false_iff.1 hhalted)]

/-- Running instructions in a row is taking their turns. -/
theorem outcome_runAll : outcome (runAll en last is) t =
    (((turns en t is).mapM Turn.result).map (keptResult last), stateAfter t (turns en t is)) := by
  induction is generalizing t last with
  | nil => rfl
  | cons i is ih =>
    rw [turns, stateAfter_cons, List.mapM_cons]
    cases hgoes : (Turn.of en t i).goesOn with
    | false =>
      rw [outcome_runAll_of_ends hgoes]
      cases (Turn.of en t i).result <;> rfl
    | true =>
      obtain ⟨r, hr, hfail, hrest⟩ := outcome_runAll_of_goesOn hgoes
      rw [hrest, ih, hr, if_pos rfl]
      cases (turns en (Turn.of en t i).after is).mapM Turn.result with
      | error e => rfl
      | ok rs =>
        show (Except.ok _, _) = (Except.ok (keptResult last (r :: rs)), _)
        rw [keptResult_cons hfail]

/-- When instructions return, so did every turn. -/
theorem exists_results {own : Result} {u : RunState}
    (h : outcome (runAll en .noAction is) t = (.ok own, u)) :
    ∃ rs, (turns en t is).mapM Turn.result = .ok rs ∧ ownResult rs = own ∧
      stateAfter t (turns en t is) = u := by
  rw [outcome_runAll, Prod.mk.injEq] at h
  obtain ⟨rs, hrs, hown⟩ := map_ok_iff.1 h.1
  exact ⟨rs, hrs, hown, h.2⟩

/-- A turn is what running its instruction from the state before it is. -/
theorem eq_of_mem_turns {x : Turn} (h : x ∈ turns en t is) :
    x = Turn.of en x.before x.instruction := by
  induction is generalizing t with
  | nil => cases h
  | cons i is ih =>
    rw [turns, List.mem_cons] at h
    rcases h with rfl | h
    · rfl
    · split at h
      · exact ih h
      · cases h

/-! ## Turns and the halt flag -/

/-- Only the first turn can begin halted, when the whole does. -/
theorem halted_before {x : Turn} (h : x ∈ turns en t is) (hhalted : x.before.halted = true) :
    t.halted = true ∧ (turns en t is).head? = some x := by
  induction is generalizing t with
  | nil => cases h
  | cons i is ih =>
    rw [turns, List.mem_cons] at h
    rcases h with rfl | h
    · exact ⟨hhalted, rfl⟩
    · split at h
      · next hgoes =>
        have hbegun := (ih h).1
        rw [Turn.not_halted_of_goesOn hgoes] at hbegun
        cases hbegun
      · cases h

/-- A turn that leaves the run halted is the last. -/
theorem turns_pairwise : (turns en t is).Pairwise fun x _ => x.after.halted = false := by
  induction is generalizing t with
  | nil => exact .nil
  | cons i is ih =>
    rw [turns]
    by_cases hgoes : (Turn.of en t i).goesOn = true
    · rw [if_pos hgoes]
      exact .cons (fun _ _ => Turn.not_halted_of_goesOn hgoes) ih
    · rw [if_neg hgoes]
      exact List.pairwise_singleton ..

theorem halted_stateAfter {x : Turn} (h : x ∈ turns en t is) (hhalted : x.after.halted = true) :
    (stateAfter t (turns en t is)).halted = true := by
  induction is generalizing t with
  | nil => cases h
  | cons i is ih =>
    rw [turns] at h
    rw [turns, stateAfter_cons]
    by_cases hgoes : (Turn.of en t i).goesOn = true
    · rw [if_pos hgoes] at h ⊢
      rcases List.mem_cons.1 h with rfl | h
      · rw [Turn.not_halted_of_goesOn hgoes] at hhalted
        cases hhalted
      · exact ih h
    · rw [if_neg hgoes] at h ⊢
      rw [List.mem_singleton.1 h] at hhalted
      exact hhalted

end Instruction

end Rulebook
