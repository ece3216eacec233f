import Rulebook.Proofs.Run.Rights

/-!
# Runs of nested actions

What actions may do when they are run, from what their scripts may do.  `Contained en E Good` says
that the script of a good action has the effects `E` and misses no parameter, and that the actions
among its parameters are good again, one level deeper.  Then every run of a good action has the
effects `E`, at whatever depth its parts are run:

    Contained en E Good,  Good a depth   →   RunM.Within E (a.run en depth)
-/

namespace Rulebook.Action

/-- What follows for an action from the actions among its parameters holds of every action. -/
theorem induct {motive : Action → Prop}
    (h : ∀ a, (∀ m, .action m ∈ a.params → motive m) → motive a) : ∀ a, motive a
  | ⟨kind, name, params, negative, isTest, source⟩ => h _ fun m _ => induct h m
termination_by a => sizeOf a
decreasing_by
  next hm =>
    have hsize := List.sizeOf_lt_of_mem hm
    simp only [ParamOf.action.sizeOf_spec, Action.mk.sizeOf_spec] at hsize ⊢
    omega

variable {en : Engine}

/-- A run, the fields of the action apart. -/
theorem run_eq (en : Engine) (a : Action) (depth : Nat) : a.run en depth =
    if en.maxDepth < depth then throw (.tooDeep en.maxDepth)
    else match en.registry.handler? a.kind with
      | none => throw (.noHandler a.kind)
      | some h => do
        let r ← (h.script ⟨a, en.today, en.evaluator.config⟩).exec a.kind
          (runParams en a.params (depth + 1))
        return if a.negative then r.negated else r := by
  obtain ⟨kind, name, params, negative, isTest, source⟩ := a
  unfold run
  rfl

/-- A run that fails was refused in the state it started in, or its script failed. -/
theorem run_error_cases {a : Action} {depth : Nat} {s t : RunState} {e : RunError}
    (hrun : outcome (a.run en depth) s = (.error e, t)) :
    t = s ∧ (e = .tooDeep en.maxDepth ∨ e = .noHandler a.kind) ∨
      ∃ h, en.registry.handler? a.kind = some h ∧
        outcome ((h.script ⟨a, en.today, en.evaluator.config⟩).exec a.kind
          (runParams en a.params (depth + 1))) s = (.error e, t) := by
  rw [run_eq] at hrun
  by_cases hdepth : en.maxDepth < depth
  · rw [if_pos hdepth] at hrun
    cases hrun
    exact .inl ⟨rfl, .inl rfl⟩
  rw [if_neg hdepth] at hrun
  cases hh : en.registry.handler? a.kind with
  | none =>
    rw [hh] at hrun
    cases hrun
    exact .inl ⟨rfl, .inr rfl⟩
  | some h =>
    rw [hh] at hrun
    dsimp only at hrun
    rw [outcome_bind] at hrun
    refine .inr ⟨h, rfl, ?_⟩
    generalize outcome ((h.script _).exec _ _) s = ran at hrun ⊢
    obtain ⟨e' | r, t'⟩ := ran
    · cases hrun
      rfl
    · cases hrun

theorem runParams_eq_map (ps : List Param) (depth : Nat) :
    runParams en ps depth = ps.map fun p => runParam en p depth := by
  induction ps with
  | nil => rfl
  | cons p ps ih => rw [runParams, ih, List.map_cons]

theorem getElem?_runParams (ps : List Param) (depth i : Nat) :
    (runParams en ps depth)[i]? = ps[i]?.map fun p => runParam en p depth := by
  rw [runParams_eq_map, List.getElem?_map]

/-- A parameter of an action, as it is run. -/
theorem at_runParams {ps : List Param} {i : Nat} {p : Param} (h : ps[i]? = some p)
    (kind : ActionKind) (depth : Nat) :
    ParamRun.at kind (runParams en ps depth) i = runParam en p depth := by
  rw [ParamRun.at, getElem?_runParams, h]
  rfl

/-- What good actions may do when they are run, and those nested in them. -/
structure Contained (en : Engine) (E : Effects) (Good : Action → Nat → Prop) : Prop where
  tooDeep : ∀ a depth, Good a depth → en.maxDepth < depth → E.raises (.tooDeep en.maxDepth)
  noHandler : ∀ a depth, Good a depth → en.registry.handler? a.kind = none →
    E.raises (.noHandler a.kind)
  script : ∀ a depth h, Good a depth → en.registry.handler? a.kind = some h →
    ∃ R : Rights, R.toEffects = E ∧ (h.script ⟨a, en.today, en.evaluator.config⟩).Within R ∧
      ∀ i, R.values i ∨ R.runs i →
        i < a.params.length ∨ E.raises (.failed a.kind (.missingParameter i))
  rule : ∀ a depth r v e, Good a depth → .rule r ∈ a.params →
    r.evaluate en.evaluator v = .error e → E.raises (.rule e)
  nested : ∀ a depth m, Good a depth → .action m ∈ a.params → Good m (depth + 1)

variable {E : Effects} {Good : Action → Nat → Prop}

/-- **Runs of good actions have no other effects.** -/
theorem Contained.run_within (h : Contained en E Good) {a : Action} {depth : Nat}
    (ha : Good a depth) : RunM.Within E (a.run en depth) := by
  induction a using induct generalizing depth with
  | h a ih =>
    rw [run_eq]
    split
    · next hdepth => exact RunM.within_throw (h.tooDeep a depth ha hdepth)
    split
    · next hnone => exact RunM.within_throw (h.noHandler a depth ha hnone)
    next handler hhandler =>
    obtain ⟨R, rfl, hscript, hplaces⟩ := h.script a depth handler ha hhandler
    refine (hscript.exec fun i hi => ?_).bind fun r => RunM.within_pure _
    rw [ParamRun.at, getElem?_runParams]
    cases hp : a.params[i]? with
    | none =>
      have hlength : a.params.length ≤ i := List.getElem?_eq_none_iff.1 hp
      exact ParamRun.within_missing ((hplaces i hi).resolve_left (Nat.not_lt.2 hlength))
    | some p =>
      have hmem : p ∈ a.params := List.mem_of_getElem? hp
      show (runParam en p (depth + 1)).Within R.toEffects
      cases p with
      | literal v => exact ParamRun.within_ofValue (RunM.within_pure v)
      | reference o q =>
        exact ParamRun.within_ofValue (RunM.within_target.bind fun _ => RunM.within_pure _)
      | rule r => exact ParamRun.within_ofRule fun v e => h.rule a depth r v e ha hmem
      | action m => exact ParamRun.within_ofAction (ih m hmem (h.nested a depth m ha hmem))

end Rulebook.Action
