import Rulebook.Proofs.Action.Reading
import Rulebook.Proofs.Run.Builtin
import Rulebook.Proofs.Run.Nested
import Rulebook.Proofs.Step.Journal

/-!
# Actions that only read

Only SET, EACH and CONVERTTO replace the target, and only END halts the run.  An action with none of
them in it, at any level of nesting, leaves the journal of a run of steps as it is:

    a.OnlyReads,  outcome (ofRun (a.run en depth)) j = (r, k)
      →  k.state.target = j.state.target,  k.path = j.path,  k.trace = j.trace

whatever `r` is (`run_of_onlyReads`).  Rules in the action may be forced: what a forced rule mends
is in its evaluation, and stays there.
-/

namespace Rulebook

namespace Action

/-! ## Kinds in an action -/

mutual

/-- The kinds of an action and of all actions nested in it. -/
def kinds : Action → List ActionKind
  | ⟨kind, _, params, _, _, _⟩ => kind :: paramsKinds params

def paramsKinds : List (ParamOf Action) → List ActionKind
  | [] => []
  | p :: ps => paramKinds p ++ paramsKinds ps

def paramKinds : ParamOf Action → List ActionKind
  | .literal _ | .reference _ _ | .rule _ => []
  | .action a => kinds a

end

/-- No kind that replaces the target is in the action. -/
def OnlyReads (a : Action) : Prop :=
  ∀ kind ∈ a.kinds, kind ≠ .set ∧ kind ≠ .convertTo ∧ kind ≠ .each

instance (a : Action) : Decidable a.OnlyReads :=
  inferInstanceAs (Decidable (∀ kind ∈ a.kinds, kind ≠ .set ∧ kind ≠ .convertTo ∧ kind ≠ .each))

variable {a m : Action}

theorem kind_mem_kinds (a : Action) : a.kind ∈ a.kinds := by
  obtain ⟨kind, name, params, negative, isTest, source⟩ := a
  rw [kinds]
  exact List.mem_cons_self

theorem mem_paramsKinds {ps : List Param} (hm : .action m ∈ ps) {kind : ActionKind}
    (hkind : kind ∈ m.kinds) : kind ∈ paramsKinds ps := by
  induction ps with
  | nil => cases hm
  | cons p ps ih =>
    rw [paramsKinds, List.mem_append]
    rcases List.mem_cons.1 hm with rfl | hm
    · rw [paramKinds]
      exact .inl hkind
    · exact .inr (ih hm)

theorem mem_kinds_of_param (hm : .action m ∈ a.params) {kind : ActionKind}
    (hkind : kind ∈ m.kinds) : kind ∈ a.kinds := by
  obtain ⟨ownKind, name, params, negative, isTest, source⟩ := a
  rw [kinds]
  exact List.mem_cons_of_mem ownKind (mem_paramsKinds hm hkind)

/-! ## Their runs -/

/-- Actions that only read have no effect on the target, and halt only where an END is in them. -/
theorem contained_onlyReads {en : Engine} (hreg : en.registry = .builtin) (halts : Prop) :
    Contained en ⟨False, halts, fun _ => True⟩
      fun a _ => a.OnlyReads ∧ (.stop ∈ a.kinds → halts) where
  tooDeep _ _ _ _ := trivial
  noHandler _ _ _ _ := trivial
  script a depth handler ha hhandler := by
    obtain ⟨hset, hconvert, heach⟩ := ha.1 a.kind (kind_mem_kinds a)
    have hsets : ¬(a.kind = .set ∨ a.kind = .each ∨ a.kind = .convertTo) := by
      rintro (hkind | hkind | hkind)
      · exact hset hkind
      · exact heach hkind
      · exact hconvert hkind
    have hadmits : Builtin.Admits ⟨False, halts, fun _ => True⟩ a.kind
        ⟨a, en.today, en.evaluator.config⟩ :=
      Builtin.admitsFaults_true.admits hsets fun hkind => ha.2 (hkind ▸ kind_mem_kinds a)
    have hscript := Registry.script?_of_builtin hreg hhandler
    exact ⟨_, rfl, Builtin.within_script hadmits hscript, fun _ _ => .inr trivial⟩
  rule _ _ _ _ _ _ _ _ := trivial
  nested a depth m ha hm :=
    ⟨fun kind hkind => ha.1 kind (mem_kinds_of_param hm hkind),
      fun hstop => ha.2 (mem_kinds_of_param hm hstop)⟩

/-- **Reading leaves everything alone**: whether the action returns or raises an error, the target,
the path and the trace are as before, and the run is halted only if it was, unless an END is in the
action. -/
theorem run_of_onlyReads {en : Engine} (hreg : en.registry = .builtin) (ha : a.OnlyReads)
    (depth : Nat) (j : Journal) :
    let k := (outcome (StepM.ofRun (a.run en depth)) j).2
    k.state.target = j.state.target ∧ k.path = j.path ∧ k.trace = j.trace ∧
      (.stop ∉ a.kinds → k.state.halted = j.state.halted) := by
  intro k
  have hwithin : RunM.Within ⟨False, .stop ∈ a.kinds, fun _ => True⟩ (a.run en depth) :=
    (contained_onlyReads hreg (.stop ∈ a.kinds)).run_within ⟨ha, id⟩
  have hadmits := hwithin j.state
  have hk : k = { j with state := (outcome (a.run en depth) j.state).2 } :=
    congrArg Prod.snd (StepM.outcome_ofRun _ j)
  rw [hk]
  exact ⟨hadmits.target not_false, rfl, rfl, hadmits.halted⟩

/-- The rule of `IFTTT([|u-f],IN('AB'))` makes upper case of `ab` and passes, and IN does not find
`AB` afterwards. -/
theorem run_of_onlyReads_forced :
    let en : Engine := { registry := .builtin, today := .earliest }
    let j : Journal := { state := { target := .text "ab" }, path := ["s"] }
    ∃ a, Instruction.parse {} "IFTTT([|u-f],IN('AB'))" = .ok (.action a) ∧ a.OnlyReads ∧
      (outcome (StepM.ofRun (a.run en 0)) j).1.toOption.bind (·.failure) =
        some "'ab' is not in the list" ∧
      (outcome (StepM.ofRun (a.run en 0)) j).2.state.target = .text "ab" := by
  intro en j
  obtain ⟨a, ha, hreads, hfails⟩ := Instruction.exists_of_isActionWith
    (P := fun a => a.OnlyReads ∧
      (outcome (StepM.ofRun (a.run en 0)) j).1.toOption.bind (·.failure) =
        some "'ab' is not in the list")
    (x := Instruction.parse {} "IFTTT([|u-f],IN('AB'))") (by decide +kernel)
  have hreg : en.registry = .builtin := rfl
  have htarget := (run_of_onlyReads hreg hreads 0 j).1
  exact ⟨a, ha, hreads, hfails, htarget⟩

end Action

end Rulebook
