import Rulebook.Proofs.Run.Rights
import Rulebook.Run.Builtin

/-!
# What the engine's own actions may do

`Builtin.rights E kind count` says what the script of a kind may do and ask for with `count`
parameters, and every script of the engine keeps to it (`Builtin.within_script`).  Given as many
parameters as its kind takes, a script

    asks for the values of parameters that are there
    runs the parameters that must be actions, and the first one of CHECK and IFTTT

and only SET, EACH and CONVERTTO replace the target, and only END halts the run.  Scripts raise
faults of their own; what they are answered they pass on.
-/

namespace Rulebook

open Script

namespace Builtin

/-- The script of a kind, run for a call, has no effects that `E` does not admit. -/
structure Admits (E : Effects) (kind : ActionKind) (c : Call) : Prop where
  sets : kind = .set ∨ kind = .each ∨ kind = .convertTo → E.sets
  halts : kind = .stop → E.halts
  invalidTarget : ∀ k fault, E.raises (.invalidTarget k fault)
  notANumber : ∀ k shown, E.raises (.failed k (.notANumber shown))
  notADate : ∀ k shown, E.raises (.failed k (.notADate shown))
  unknownConversion : ∀ k word, E.raises (.failed k (.unknownConversion word))
  /-- A date action is run for its own kind. -/
  notACalendarAction : c.kind = kind ∨ E.raises (.failed c.kind .notACalendarAction)

/-- What the script of a kind may do with `count` parameters. -/
def rights (E : Effects) (kind : ActionKind) (count : Nat) : Rights where
  toEffects := E
  values i := kind.least ≤ count → i < count
  runs i := kind.least ≤ count →
    i = 0 ∧ (kind = .check ∨ kind = .ifttt) ∨ i ∈ kind.actionPlaces count

/-! ## The scripts -/

variable {R : Rights} {c : Call}

theorem within_operands (h0 : R.values 0) (h1 : c.count = 2 → R.values 1) :
    (operands c).Within R := by
  unfold operands
  split
  · next htwo =>
    exact (within_getValue h0).bind fun a =>
      (within_getValue (h1 htwo)).bind fun b => within_pure (a, b)
  · exact within_getTarget.bind fun a => (within_getValue h0).bind fun b => within_pure (a, b)

theorem within_comparison {holds : Ordering → Bool} {verb : String} (h0 : R.values 0)
    (h1 : c.count = 2 → R.values 1) : (comparison holds verb c).Within R :=
  (within_operands h0 h1).bind fun _ => within_pure _

theorem within_between (h0 : R.values 0) (h1 : R.values 1) (h2 : c.count = 3 → R.values 2) :
    (between c).Within R := by
  have hbounds : ∀ {f : Value → Value → Result} {i j : Nat}, R.values i → R.values j →
      (do return f (← getValue i) (← getValue j) : Script Result).Within R :=
    fun hi hj => (within_getValue hi).bind fun low => (within_getValue hj).bind fun high =>
      within_pure _
  unfold between
  dsimp only
  split
  · next hthree => exact (within_getValue h0).bind fun subject => hbounds h1 (h2 hthree)
  · exact within_getTarget.bind fun subject => hbounds h0 h1

theorem within_getNumber {i : Nat} (hi : R.values i)
    (hnumber : ∀ shown, R.raises (.failed c.kind (.notANumber shown))) :
    (getNumber c i).Within R := by
  refine (within_getValue hi).bind fun v => ?_
  split
  · exact within_pure _
  · exact hnumber _

theorem within_length (h0 : R.values 0) (h1 : c.count = 2 → R.values 1)
    (hnumber : ∀ shown, R.raises (.failed c.kind (.notANumber shown))) : (length c).Within R := by
  refine within_getTarget.bind fun t => (within_getNumber h0 hnumber).bind fun low => ?_
  dsimp only
  split
  · next htwo =>
    refine (within_getNumber (h1 htwo) hnumber).bind fun high => ?_
    split <;> exact within_pure _
  · refine (within_pure low).bind fun high => ?_
    split <;> exact within_pure _

theorem within_oneOf (h : ∀ i, i < c.count → R.values i) : (oneOf c).Within R :=
  (within_values h).bind fun _ => within_getTarget.bind fun _ => within_pure _

theorem within_check (h : R.runs 0) : (check c).Within R :=
  (within_runParam h).bind fun _ => within_pure _

theorem within_set (hsets : R.sets) (h0 : R.values 0) (h1 : c.count = 2 → R.values 1)
    (hpath : ∀ fault, R.raises (.invalidTarget .set fault)) : (set c).Within R := by
  unfold set
  split
  · next htwo =>
    refine (within_getValue h0).bind fun _ => (within_getValue (h1 htwo)).bind fun v =>
      within_getTarget.bind fun target => ?_
    split
    · exact (within_putTarget hsets _).bind fun _ => within_pure _
    · exact (within_putTarget hsets _).bind fun _ => hpath _
  · exact (within_getValue h0).bind fun v =>
      (within_putTarget hsets v).bind fun _ => within_pure _

theorem within_get (h : R.values 0) : (get c).Within R := by
  refine (within_getValue h).bind fun v => within_getTarget.bind fun t => ?_
  split <;> exact within_pure _

theorem within_list (h : ∀ i, i < c.count → R.values i) : (list c).Within R :=
  (within_values h).bind fun _ => within_pure _

theorem within_eachFrom (h : R.runs 0) {i : Nat} {items : List Value} :
    (eachFrom i items).Within R := by
  induction items generalizing i with
  | nil => exact within_pure _
  | cons item items ih =>
    exact (within_runParamWith h item).bind fun _ => ih.bind fun _ => within_pure _

theorem within_eachItem (hsets : R.sets) (h : R.runs 0) {items : List Value} :
    (eachItem items).Within R :=
  (within_eachFrom h).bind fun _ => (within_putTarget hsets _).bind fun _ => within_pure _

theorem within_each (hsets : R.sets) (h : R.runs 0)
    (hlist : ∀ fault, R.raises (.invalidTarget .each fault)) : (each c).Within R := by
  refine within_getTarget.bind fun t => ?_
  split
  · exact within_eachItem hsets h
  · exact within_eachItem hsets h
  · exact hlist _

theorem within_convertTo (hsets : R.sets) (h : R.values 0)
    (hword : ∀ word, R.raises (.failed .convertTo (.unknownConversion word))) :
    (convertTo c).Within R := by
  refine (within_getValue h).bind fun v => ?_
  dsimp only
  split
  · exact hword _
  · refine within_getTarget.bind fun t => ?_
    split
    · exact (within_putTarget hsets _).bind fun _ => within_pure _
    · exact within_pure _

theorem within_ifttt (h0 : R.runs 0) (h1 : R.runs 1) (h2 : c.count = 3 → R.runs 2) :
    (ifttt c).Within R := by
  refine (within_runParam h0).bind fun condition => ?_
  split
  · exact within_runParam h1
  · split
    · next hthree => exact within_runParam (h2 hthree)
    · exact within_pure _

theorem within_switchFrom {otherwise : Script Result} (hotherwise : otherwise.Within R)
    {i n : Nat} (hvalues : ∀ j, j < n → R.values (i + 2 * j))
    (hruns : ∀ j, j < n → R.runs (i + 2 * j + 1)) : (switchFrom otherwise i n).Within R := by
  induction n generalizing i with
  | zero => exact hotherwise
  | succ n ih =>
    refine (within_getValue (hvalues 0 (by omega))).bind fun expected =>
      within_getTarget.bind fun target => ?_
    split
    · exact within_runParam (hruns 0 (by omega))
    · refine ih (fun j hj => ?_) fun j hj => ?_
      · rw [Nat.add_assoc, show 2 + 2 * j = 2 * (j + 1) by omega]
        exact hvalues (j + 1) (by omega)
      · rw [Nat.add_assoc i, show 2 + 2 * j = 2 * (j + 1) by omega]
        exact hruns (j + 1) (by omega)

theorem within_switch (hvalues : ∀ i, i < c.count → R.values i)
    (hruns : ∀ i, i < c.count → i % 2 = 1 → R.runs i)
    (hdefault : c.count % 2 = 1 → R.runs (c.count - 1)) : (switch c).Within R := by
  refine within_switchFrom ?_ (fun j hj => hvalues _ (by omega))
    fun j hj => hruns _ (by omega) (by omega)
  split
  · next hodd => exact within_runParam (hdefault hodd)
  · exact within_pure _

theorem within_stop (h : R.halts) : (stop c).Within R :=
  (within_haltRun h).bind fun _ => within_pure _

theorem within_baseDate (h : c.count ≠ 0 → R.values 0)
    (hdate : ∀ shown, R.raises (.failed c.kind (.notADate shown))) : (baseDate c).Within R := by
  unfold baseDate
  split
  · exact within_pure _
  · next hcount =>
    refine (within_getValue (h hcount)).bind fun v => ?_
    split
    · exact within_pure _
    · exact hdate _

theorem within_calendar (h : c.count ≠ 0 → R.values 0)
    (hdate : ∀ shown, R.raises (.failed c.kind (.notADate shown)))
    (hkind : (periodDate? c.kind).isSome = true ∨ R.raises (.failed c.kind .notACalendarAction)) :
    (calendar c).Within R := by
  refine (within_baseDate h hdate).bind fun d => ?_
  split
  · exact within_pure _
  · next hnone => exact hkind.resolve_left (by simp [hnone])

/-! ## The table -/

/-- **Every script of the engine keeps to its rights.** -/
theorem within_script {E : Effects} {kind : ActionKind} {script : Call → Script Result}
    (hE : Admits E kind c) (h : script? kind = some script) :
    (script c).Within (rights E kind c.count) := by
  have hvalues (i : Nat) : (kind.least ≤ c.count → i < c.count) →
      (rights E kind c.count).values i := id
  have hruns (i : Nat) : (kind.least ≤ c.count →
      i = 0 ∧ (kind = .check ∨ kind = .ifttt) ∨ i ∈ kind.actionPlaces c.count) →
      (rights E kind c.count).runs i := id
  cases kind <;> cases h <;> simp only [ActionKind.least] at hvalues
  case gt | lt | eq | gte | lte =>
    exact within_comparison (hvalues 0 (by omega)) fun _ => hvalues 1 (by omega)
  case bw =>
    exact within_between (hvalues 0 (by omega)) (hvalues 1 (by omega)) fun _ => hvalues 2 (by omega)
  case len =>
    exact within_length (hvalues 0 (by omega)) (fun _ => hvalues 1 (by omega)) (hE.notANumber _)
  case oneOf => exact within_oneOf fun i hi => hvalues i fun _ => hi
  case check => exact within_check (hruns 0 fun _ => .inl ⟨rfl, .inl rfl⟩)
  case set =>
    exact within_set (hE.sets (.inl rfl)) (hvalues 0 (by omega)) (fun _ => hvalues 1 (by omega))
      (hE.invalidTarget _)
  case get => exact within_get (hvalues 0 (by omega))
  case list => exact within_list fun i hi => hvalues i fun _ => hi
  case each =>
    exact within_each (hE.sets (.inr (.inl rfl)))
      (hruns 0 fun _ => .inr (List.mem_singleton.2 rfl)) (hE.invalidTarget _)
  case convertTo =>
    exact within_convertTo (hE.sets (.inr (.inr rfl))) (hvalues 0 (by omega))
      (hE.unknownConversion _)
  case ifttt =>
    have hbranch (i : Nat) (hi : 1 ≤ i) (hcount : 2 ≤ c.count → i < c.count) :
        (rights E .ifttt c.count).runs i :=
      hruns i fun h => .inr (by simp [ActionKind.actionPlaces, hi, hcount h])
    exact within_ifttt (hruns 0 fun _ => .inl ⟨rfl, .inr rfl⟩) (hbranch 1 (by omega) (by omega))
      fun _ => hbranch 2 (by omega) (by omega)
  case switch =>
    refine within_switch (fun i hi => hvalues i fun _ => hi) (fun i hi hodd => hruns i fun _ => ?_)
      fun hodd => hruns _ fun _ => ?_
    · exact .inr (by simp [ActionKind.actionPlaces, hi, hodd])
    · exact .inr (by simp [ActionKind.actionPlaces, hodd])
  case stop => exact within_stop (hE.halts rfl)
  case today => exact within_pure _
  -- the date actions are left: their script is one
  all_goals
    refine within_calendar (fun _ => hvalues 0 (by omega)) (hE.notADate _)
      (hE.notACalendarAction.imp_left fun hkind => ?_)
    rw [hkind]
    rfl

/-- Of an action the scripts of the engine see the kind and the parameters. -/
theorem script_congr {kind : ActionKind} {script : Call → Script Result}
    (h : script? kind = some script) {a b : Action} (hkind : a.kind = b.kind)
    (hparams : a.params = b.params) (today : Date) (config : Config) :
    script ⟨a, today, config⟩ = script ⟨b, today, config⟩ := by
  obtain ⟨_, name, _, negative, isTest, source⟩ := a
  dsimp only at hkind hparams
  subst hkind hparams
  cases kind <;> cases h <;> rfl

/-- The faults of actions are in `P`. -/
structure AdmitsFaults (P : RunError → Prop) : Prop where
  failed : ∀ kind fault, P (.failed kind fault)
  invalidTarget : ∀ kind fault, P (.invalidTarget kind fault)

theorem admitsFaults_true : AdmitsFaults fun _ => True :=
  ⟨fun _ _ => trivial, fun _ _ => trivial⟩

theorem AdmitsFaults.admits {E : Effects} (h : AdmitsFaults E.raises) {kind : ActionKind}
    (hsets : kind = .set ∨ kind = .each ∨ kind = .convertTo → E.sets)
    (hhalts : kind = .stop → E.halts) : Admits E kind c where
  sets := hsets
  halts := hhalts
  invalidTarget := h.invalidTarget
  notANumber _ _ := h.failed _ _
  notADate _ _ := h.failed _ _
  unknownConversion _ _ := h.failed _ _
  notACalendarAction := .inr (h.failed _ _)

end Builtin

/-! ## The registry -/

namespace Registry

/-- The engine's own handlers are those of its scripts. -/
theorem script?_of_builtin {r : Registry} (hreg : r = .builtin) {kind : ActionKind} {h : Handler}
    (hh : r.handler? kind = some h) : Builtin.script? kind = some h.script := by
  subst hreg
  obtain ⟨script, hscript, rfl⟩ := Option.map_eq_some_iff.1 hh
  exact hscript

/-- The engine's own handlers raise only faults of actions. -/
theorem builtin_raises {P : RunError → Prop} (hP : Builtin.AdmitsFaults P) :
    Registry.builtin.Raises P := by
  intro kind h hh c
  have hadmits : Builtin.Admits ⟨True, True, P⟩ kind c :=
    Builtin.AdmitsFaults.admits hP (fun _ => trivial) fun _ => trivial
  exact (Builtin.within_script hadmits (script?_of_builtin rfl hh)).raises

end Registry

end Rulebook
