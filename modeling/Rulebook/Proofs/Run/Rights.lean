import Rulebook.Proofs.Run.Raises
import Rulebook.Proofs.Run.Requests

/-!
# What runs and scripts may do

`RunM.Within E x` says that a run has no other effects than `E` admits: on the target, on the halt
flag and in the errors it raises.  `script.Within R` says this of a script, and which parameters it
asks for, as long as its requests are answered with errors that it may raise itself.  Scripts are
closed under this by construction, and running one keeps to it:

    script.Within R,  the parameters it may ask for are within R
      →  script.exec kind params is within R
-/

namespace Rulebook

variable {α β : Type}

/-- What a run may do. -/
structure Effects where
  /-- The target may be replaced. -/
  sets : Prop
  /-- The run may be halted. -/
  halts : Prop
  /-- The errors that may be raised. -/
  raises : RunError → Prop

/-- The end of a run from `s` shows no other effects. -/
structure Effects.Admits (E : Effects) (s : RunState) (x : Except RunError α × RunState) :
    Prop where
  target : ¬E.sets → x.2.target = s.target
  halted : ¬E.halts → x.2.halted = s.halted
  raised : AnswersIn E.raises x.1

/-! ## Runs -/

namespace RunM

variable {E : Effects} {x : RunM α}

/-- From every state the run has no other effects. -/
def Within (E : Effects) (x : RunM α) : Prop := ∀ s, E.Admits s (outcome x s)

theorem within_pure (a : α) : Within E (pure a) :=
  fun _ => ⟨fun _ => rfl, fun _ => rfl, onError_ok _⟩

theorem within_throw {e : RunError} (h : E.raises e) : Within E (throw e : RunM α) :=
  fun _ => ⟨fun _ => rfl, fun _ => rfl, onError_error h⟩

theorem within_target : Within E target := fun _ => ⟨fun _ => rfl, fun _ => rfl, onError_ok _⟩

theorem within_setTarget (h : E.sets) (v : Value) : Within E (setTarget v) :=
  fun _ => ⟨fun hsets => absurd h hsets, fun _ => rfl, onError_ok _⟩

theorem within_halt (h : E.halts) : Within E halt :=
  fun _ => ⟨fun _ => rfl, fun hhalts => absurd h hhalts, onError_ok _⟩

theorem Within.bind {f : α → RunM β} (hx : Within E x) (hf : ∀ a, Within E (f a)) :
    Within E (x >>= f) := by
  intro s
  rw [outcome_bind]
  have hs := hx s
  generalize outcome x s = r at hs
  obtain ⟨e | a, t⟩ := r
  · exact ⟨hs.target, hs.halted, onError_error (hs.raised e rfl)⟩
  · have ht := hf a t
    exact ⟨fun h => (ht.target h).trans (hs.target h), fun h => (ht.halted h).trans (hs.halted h),
      ht.raised⟩

/-- What follows is told only of errors that the run may raise. -/
theorem Within.observe_bind {f : Except RunError α → RunM β} (hx : Within E x)
    (hf : ∀ r, AnswersIn E.raises r → Within E (f r)) : Within E (observe x >>= f) := by
  intro s
  rw [outcome_observe_bind]
  have hs := hx s
  have ht := hf _ hs.raised (outcome x s).2
  exact ⟨fun h => (ht.target h).trans (hs.target h), fun h => (ht.halted h).trans (hs.halted h),
    ht.raised⟩

/-- Whatever is done to the stand-in, the target is put back. -/
theorem Within.withTarget (hx : Within E x) (v : Value) : Within E (withTarget v x) := by
  intro s
  have hs := hx { s with target := v }
  rw [outcome_withTarget]
  generalize outcome x { s with target := v } = r at hs
  obtain ⟨e | a, t⟩ := r
  · exact ⟨fun _ => rfl, hs.halted, onError_error (hs.raised e rfl)⟩
  · exact ⟨fun _ => rfl, hs.halted, onError_ok _⟩

/-- What the run raises. -/
theorem Within.ends (hx : Within E x) : Ends E.raises (fun _ => True) x :=
  ends_iff.2 fun s e he => (hx s).raised e he

end RunM

/-- The value and the run of a parameter have no other effects. -/
structure ParamRun.Within (E : Effects) (p : ParamRun) : Prop where
  value : RunM.Within E p.value
  run : RunM.Within E p.run

namespace ParamRun

variable {E : Effects}

theorem within_ofValue {text : String} {value : RunM Value} (h : RunM.Within E value) :
    (ofValue text value).Within E :=
  ⟨h, h.bind fun _ => RunM.within_pure _⟩

theorem within_ofAction {run : RunM Result} (h : RunM.Within E run) : (ofAction run).Within E :=
  ⟨h.bind fun _ => RunM.within_pure _, h⟩

theorem within_ofRule {ev : Evaluator} {r : Rule}
    (h : ∀ v e, r.evaluate ev v = .error e → E.raises (.rule e)) : (ofRule ev r).Within E := by
  have hevaluate : RunM.Within E (evaluate ev r) := by
    refine RunM.within_target.bind fun v => ?_
    split
    · exact RunM.within_pure _
    · next e he => exact RunM.within_throw (h v e he)
  exact ⟨hevaluate.bind fun _ => RunM.within_pure _, hevaluate.bind fun _ => RunM.within_pure _⟩

theorem within_missing {kind : ActionKind} {i : Nat}
    (h : E.raises (.failed kind (.missingParameter i))) : (missing kind i).Within E :=
  ⟨RunM.within_throw h, RunM.within_throw h⟩

end ParamRun

/-! ## Scripts -/

/-- What a script may do and ask for. -/
structure Rights extends Effects where
  /-- The parameters whose values it may ask for. -/
  values : Nat → Prop
  /-- The parameters it may run. -/
  runs : Nat → Prop

/-- All that raises only errors in `P`. -/
def Rights.all (P : RunError → Prop) : Rights where
  sets := True
  halts := True
  raises := P
  values _ := True
  runs _ := True

namespace Script

variable {R : Rights}

/-- The script does and asks for nothing else, as long as it is answered with errors that it may
raise. -/
def Within (R : Rights) : Script α → Prop
  | .done _ => True
  | .raise e => R.raises e
  | .target next => ∀ v, (next v).Within R
  | .setTarget _ next => R.sets ∧ next.Within R
  | .halt next => R.halts ∧ next.Within R
  | .value i next => R.values i ∧ ∀ r, AnswersIn R.raises r → (next r).Within R
  | .run i next => R.runs i ∧ ∀ r, AnswersIn R.raises r → (next r).Within R
  | .runWith i _ next => R.runs i ∧ ∀ r, AnswersIn R.raises r → (next r).Within R

theorem within_pure (a : α) : (pure a : Script α).Within R := trivial

theorem Within.bind {x : Script α} {f : α → Script β} (hx : x.Within R)
    (hf : ∀ a, (f a).Within R) : (x >>= f).Within R := by
  show (x.bind f).Within R
  induction x with
  | done a => exact hf a
  | raise e => exact hx
  | target next ih => exact fun v => ih v (hx v)
  | setTarget v next ih => exact ⟨hx.1, ih hx.2⟩
  | halt next ih => exact ⟨hx.1, ih hx.2⟩
  | value i next ih => exact ⟨hx.1, fun r hr => ih r (hx.2 r hr)⟩
  | run i next ih => exact ⟨hx.1, fun r hr => ih r (hx.2 r hr)⟩
  | runWith i v next ih => exact ⟨hx.1, fun r hr => ih r (hx.2 r hr)⟩

theorem within_ofAnswer {r : Except RunError α} (h : AnswersIn R.raises r) :
    (ofAnswer r).Within R := by
  cases r with
  | ok a => trivial
  | error e => exact h e rfl

theorem within_getTarget : getTarget.Within R := fun _ => trivial

theorem within_putTarget (h : R.sets) (v : Value) : (putTarget v).Within R := ⟨h, trivial⟩

theorem within_haltRun (h : R.halts) : haltRun.Within R := ⟨h, trivial⟩

theorem within_getValue {i : Nat} (h : R.values i) : (getValue i).Within R :=
  ⟨h, fun _ => within_ofAnswer⟩

theorem within_runParam {i : Nat} (h : R.runs i) : (runParam i).Within R :=
  ⟨h, fun _ => within_ofAnswer⟩

theorem within_runParamWith {i : Nat} (h : R.runs i) (v : Value) : (runParamWith i v).Within R :=
  ⟨h, fun _ => within_ofAnswer⟩

theorem within_valuesFrom {i n : Nat} (h : ∀ j, j < i + n → R.values j) :
    (valuesFrom i n).Within R := by
  induction n generalizing i with
  | zero => exact within_pure []
  | succ n ih =>
    have hrest : (valuesFrom (i + 1) n).Within R := ih fun j hj => h j (by omega)
    exact (within_getValue (h i (by omega))).bind fun v =>
      hrest.bind fun vs => within_pure (v :: vs)

theorem within_values {n : Nat} (h : ∀ j, j < n → R.values j) : (values n).Within R :=
  within_valuesFrom fun j hj => h j (by omega)

/-- What the script raises. -/
theorem Within.raises {script : Script α} (h : script.Within R) : script.Raises R.raises := by
  induction script with
  | done a => trivial
  | raise e => exact h
  | target next ih => exact fun v => ih v (h v)
  | setTarget v next ih => exact ih h.2
  | halt next ih => exact ih h.2
  | value i next ih => exact fun r hr => ih r (h.2 r hr)
  | run i next ih => exact fun r hr => ih r (h.2 r hr)
  | runWith i v next ih => exact fun r hr => ih r (h.2 r hr)

theorem Raises.within {P : RunError → Prop} {script : Script α} (h : script.Raises P) :
    script.Within (Rights.all P) := by
  induction script with
  | done a => trivial
  | raise e => exact h
  | target next ih => exact fun v => ih v (h v)
  | setTarget v next ih => exact ⟨trivial, ih h⟩
  | halt next ih => exact ⟨trivial, ih h⟩
  | value i next ih => exact ⟨trivial, fun r hr => ih r (h r hr)⟩
  | run i next ih => exact ⟨trivial, fun r hr => ih r (h r hr)⟩
  | runWith i v next ih => exact ⟨trivial, fun r hr => ih r (h r hr)⟩

/-- A script runs within what it may do, when the parameters that it may ask for are. -/
theorem Within.exec {script : Script α} {kind : ActionKind} {params : List ParamRun}
    (h : script.Within R)
    (hparams : ∀ i, R.values i ∨ R.runs i → (ParamRun.at kind params i).Within R.toEffects) :
    RunM.Within R.toEffects (script.exec kind params) := by
  induction script with
  | done a => exact RunM.within_pure a
  | raise e => exact RunM.within_throw h
  | target next ih => exact RunM.within_target.bind fun v => ih v (h v)
  | setTarget v next ih => exact (RunM.within_setTarget h.1 v).bind fun _ => ih h.2
  | halt next ih => exact (RunM.within_halt h.1).bind fun _ => ih h.2
  | value i next ih =>
    exact (hparams i (.inl h.1)).value.observe_bind fun r hr => ih r (h.2 r hr)
  | run i next ih => exact (hparams i (.inr h.1)).run.observe_bind fun r hr => ih r (h.2 r hr)
  | runWith i v next ih =>
    exact ((hparams i (.inr h.1)).run.withTarget v).observe_bind fun r hr => ih r (h.2 r hr)

end Script

end Rulebook
