import Rulebook.Proofs.Nesting.Action

/-!
# Runs and the halt flag

No run looks at the halt flag: how it ends, and the target it leaves, are up to the target it starts
from (`run_blind`).  `shown x v` is this of a run from the target `v`:

    outcome x s = (r, t)   →   shown x s.target = (r, t.target)

Nor does the depth at which an action is run matter as long as it fits there (`run_eq_of_fits`).
-/

namespace Rulebook

variable {α β : Type}

namespace RunM

/-- How a run ends, and the target it leaves. -/
def shown (x : RunM α) (v : Value) : Except RunError α × Value :=
  ((outcome x { target := v }).1, (outcome x { target := v }).2.target)

/-- What the run shows is up to the target. -/
def Blind (x : RunM α) : Prop :=
  ∀ s, ((outcome x s).1, (outcome x s).2.target) = shown x s.target

variable {x : RunM α} {f : α → RunM β}

theorem blind_pure (a : α) : Blind (pure a) := fun _ => rfl

theorem blind_throw (e : RunError) : Blind (throw e : RunM α) := fun _ => rfl

theorem blind_target : Blind target := fun _ => rfl

theorem blind_setTarget (v : Value) : Blind (setTarget v) := fun _ => rfl

theorem blind_halt : Blind halt := fun _ => rfl

theorem Blind.ended (hx : Blind x) (s : RunState) : (outcome x s).1 = (shown x s.target).1 :=
  (Prod.ext_iff.1 (hx s)).1

theorem Blind.left (hx : Blind x) (s : RunState) :
    (outcome x s).2.target = (shown x s.target).2 :=
  (Prod.ext_iff.1 (hx s)).2

/-- What follows goes on from the target that was left. -/
def shownThen (f : α → RunM β) : Except RunError α × Value → Except RunError β × Value
  | (.ok a, v) => shown (f a) v
  | (.error e, v) => (.error e, v)

theorem shown_bind_at (hf : ∀ a, Blind (f a)) (s : RunState) :
    ((outcome (x >>= f) s).1, (outcome (x >>= f) s).2.target) =
      shownThen f ((outcome x s).1, (outcome x s).2.target) := by
  rw [outcome_bind]
  generalize outcome x s = r
  obtain ⟨e | a, t⟩ := r
  · rfl
  · exact hf a t

theorem shown_bind (hf : ∀ a, Blind (f a)) (v : Value) :
    shown (x >>= f) v = shownThen f (shown x v) := shown_bind_at hf { target := v }

theorem Blind.bind (hx : Blind x) (hf : ∀ a, Blind (f a)) : Blind (x >>= f) := by
  intro s
  rw [shown_bind_at hf, shown_bind hf, hx s]

theorem Blind.observe (hx : Blind x) : Blind (observe x) := by
  intro s
  rw [outcome_observe, hx.ended, hx.left]
  rfl

/-- The target is as before, and what became of the stand-in is told when the run returns. -/
theorem shown_withTarget (standIn v : Value) (x : RunM α) : shown (withTarget standIn x) v =
    ((shown x standIn).1.map fun a => (a, (shown x standIn).2), v) := by
  rw [shown, outcome_withTarget, shown]

theorem Blind.withTarget (hx : Blind x) (standIn : Value) : Blind (withTarget standIn x) := by
  intro s
  rw [shown_withTarget, outcome_withTarget, hx.ended, hx.left]

end RunM

/-- The value and the run of a parameter are up to the target. -/
structure ParamRun.Blind (p : ParamRun) : Prop where
  value : RunM.Blind p.value
  run : RunM.Blind p.run

namespace ParamRun

theorem blind_ofValue {text : String} {value : RunM Value} (h : RunM.Blind value) :
    (ofValue text value).Blind :=
  ⟨h, h.bind fun _ => RunM.blind_pure _⟩

theorem blind_ofAction {run : RunM Result} (h : RunM.Blind run) : (ofAction run).Blind :=
  ⟨h.bind fun _ => RunM.blind_pure _, h⟩

theorem blind_ofRule (ev : Evaluator) (r : Rule) : (ofRule ev r).Blind := by
  have hevaluate : RunM.Blind (evaluate ev r) := by
    refine RunM.blind_target.bind fun v => ?_
    split
    · exact RunM.blind_pure _
    · exact RunM.blind_throw _
  exact ⟨hevaluate.bind fun _ => RunM.blind_pure _, hevaluate.bind fun _ => RunM.blind_pure _⟩

theorem blind_missing (kind : ActionKind) (i : Nat) : (missing kind i).Blind :=
  ⟨RunM.blind_throw _, RunM.blind_throw _⟩

end ParamRun

namespace Script

variable {kind : ActionKind} {params : List ParamRun}

/-- A script cannot ask for the halt flag. -/
theorem exec_blind (h : ∀ i, (ParamRun.at kind params i).Blind) (script : Script α) :
    RunM.Blind (script.exec kind params) := by
  induction script with
  | done a => exact RunM.blind_pure a
  | raise e => exact RunM.blind_throw e
  | target next ih => exact RunM.blind_target.bind ih
  | setTarget v next ih => exact (RunM.blind_setTarget v).bind fun _ => ih
  | halt next ih => exact RunM.blind_halt.bind fun _ => ih
  | value i next ih => exact (h i).value.observe.bind ih
  | run i next ih => exact (h i).run.observe.bind ih
  | runWith i v next ih => exact ((h i).run.withTarget v).observe.bind ih

/-- What a script shows is what its parts show, one after the other. -/
theorem shown_exec_bind (h : ∀ i, (ParamRun.at kind params i).Blind) (x : Script α)
    (f : α → Script β) (v : Value) : RunM.shown ((x >>= f).exec kind params) v =
      RunM.shownThen (fun a => (f a).exec kind params) (RunM.shown (x.exec kind params) v) := by
  rw [← RunM.shown_bind fun a => exec_blind h (f a)]
  simp only [RunM.shown, outcome_exec_bind, outcome_bind]

end Script

namespace Action

variable {en : Engine}

theorem runParam_blind {p : Param} {depth : Nat}
    (h : ∀ m, p = .action m → RunM.Blind (m.run en depth)) : (runParam en p depth).Blind := by
  cases p with
  | literal v => exact ParamRun.blind_ofValue (RunM.blind_pure v)
  | reference o q =>
    exact ParamRun.blind_ofValue (RunM.blind_target.bind fun _ => RunM.blind_pure _)
  | rule r => exact ParamRun.blind_ofRule en.evaluator r
  | action m => exact ParamRun.blind_ofAction (h m rfl)

/-- **What an action shows is up to its target.** -/
theorem run_blind (en : Engine) (a : Action) (depth : Nat) : RunM.Blind (a.run en depth) := by
  induction a using induct generalizing depth with
  | h a ih =>
    rw [run_eq]
    split
    · exact RunM.blind_throw _
    split
    · exact RunM.blind_throw _
    refine (Script.exec_blind (fun i => ?_) _).bind fun r => RunM.blind_pure _
    rw [ParamRun.at, getElem?_runParams]
    cases hp : a.params[i]? with
    | none => exact ParamRun.blind_missing a.kind i
    | some p =>
      refine runParam_blind fun m hm => ih m ?_ (depth + 1)
      exact hm ▸ List.mem_of_getElem? hp

/-! ## Depths -/

theorem runParam_eq_of_fits {p : Param} {depth depth' : Nat}
    (h : ∀ m, p = .action m → m.run en depth = m.run en depth') :
    runParam en p depth = runParam en p depth' := by
  cases p with
  | literal | reference | rule => rfl
  | action m => exact congrArg ParamRun.ofAction (h m rfl)

/-- An action does the same wherever it fits. -/
theorem run_eq_of_fits {a : Action} {depth depth' : Nat} (h : a.Fits en.maxDepth depth)
    (h' : a.Fits en.maxDepth depth') : a.run en depth = a.run en depth' := by
  induction a using induct generalizing depth depth' with
  | h a ih =>
    rw [fits_iff] at h h'
    have hparams : runParams en a.params (depth + 1) = runParams en a.params (depth' + 1) := by
      rw [runParams_eq_map, runParams_eq_map]
      refine List.map_congr_left fun p hp => runParam_eq_of_fits fun m hm => ?_
      subst hm
      exact ih m hp (h.2 _ hp) (h'.2 _ hp)
    rw [run_eq, run_eq, if_neg (Nat.not_lt.2 h.1), if_neg (Nat.not_lt.2 h'.1), hparams]

/-- An action that fits fits further up. -/
theorem Fits.mono {a : Action} {limit depth depth' : Nat} (h : a.Fits limit depth)
    (hle : depth' ≤ depth) : a.Fits limit depth' := by
  induction a using Action.induct generalizing depth depth' with
  | h a ih =>
    rw [fits_iff] at h ⊢
    refine ⟨Nat.le_trans hle h.1, fun p hp => ?_⟩
    have hfit := h.2 p hp
    cases p with
    | literal | reference | rule => exact hfit
    | action m => exact ih m hp hfit (Nat.succ_le_succ hle)

end Action

end Rulebook
