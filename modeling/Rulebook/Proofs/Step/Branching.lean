import Rulebook.Proofs.Run.Builtin
import Rulebook.Proofs.Run.Limit
import Rulebook.Proofs.Step.Journal

/-!
# Tests and IFTTT

**Main result** `Step.run_chain`: a step does the same with `c=>t=>e` as with `IFTTT(c,t,e)`, and
with `c=>t` as with `IFTTT(c,t)`, as long as no action is nested too deep and

    the handler of IFTTT is the engine's own
    the handler of c does not look at the mark of conditions
    c completes or fails, if it returns and there is an e

Each of these three is needed (`Step.run_chain_needs`): a test leaves a condition that neither
completed nor failed alone, where IFTTT goes on with `e`.
-/

namespace Rulebook

/-- The instruction `c=>t` or `c=>t=>e`. -/
def Instruction.chain (c t : Action) (e? : Option Action) : Instruction :=
  .test { c with isTest := true } t e?

/-- The action `IFTTT(c,t)` or `IFTTT(c,t,e)`, however it is written. -/
def Action.branching (name source : String) (c t : Action) (e? : Option Action) : Action where
  kind := .ifttt
  name
  params := .action c :: .action t :: (e?.map ParamOf.action).toList
  negative := false
  isTest := false
  source

/-- IFTTT is run by the engine's own handler. -/
def Engine.HasIfttt (en : Engine) : Prop :=
  (en.registry.handler? .ifttt).map Handler.script = some Builtin.ifttt

namespace Action

variable {en : Engine} {c t : Action} {e? : Option Action}

/-- What follows the condition of a test. -/
def afterTest (en : Engine) (t : Action) (e? : Option Action) (r : Result) : RunM Result :=
  match r.kind, e? with
  | .complete, _ => t.run en 0
  | .fail, some e => e.run en 0
  | _, _ => return r

/-- What follows the condition of IFTTT. -/
def afterIf (en : Engine) (t : Action) (e? : Option Action) (r : Result) : RunM Result :=
  if r.isComplete then t.run en 0
  else match e? with
    | some e => e.run en 0
    | none => return r

/-- They differ only when there is an action for failure and the condition neither completed nor
failed. -/
theorem afterTest_eq_afterIf {r : Result}
    (hkind : e?.isSome = true → r.kind = .complete ∨ r.kind = .fail) :
    afterTest en t e? r = afterIf en t e? r := by
  unfold afterTest afterIf Result.isComplete
  cases e? with
  | none => cases r.kind <;> rfl
  | some e =>
    rcases hkind rfl with hr | hr
    all_goals
      rw [hr]
      rfl

theorem outcome_exec_ifttt {name source : String} {today : Date} {config : Config} (s : RunState) :
    outcome ((Builtin.ifttt ⟨branching name source c t e?, today, config⟩).exec .ifttt
      (runParams en (branching name source c t e?).params 0)) s =
      continued (afterIf en t e?) (outcome (c.run en 0) s) := by
  rw [Builtin.ifttt, Script.outcome_exec_bind, Script.outcome_exec_runParam]
  show continued _ (outcome (c.run en 0) s) = _
  rcases outcome (c.run en 0) s with ⟨e | r, u⟩
  · rfl
  rw [continued, continued]
  unfold afterIf
  by_cases hcomplete : r.isComplete = true
  · rw [if_pos hcomplete, if_pos hcomplete, Script.outcome_exec_runParam]
    rfl
  · rw [if_neg hcomplete, if_neg hcomplete]
    cases e? with
    | none => rfl
    | some e =>
      show outcome ((Script.runParam 2).exec _ _) u = _
      rw [Script.outcome_exec_runParam]
      rfl

/-- The handler of an action does not look at the mark of conditions. -/
def IgnoresMark (en : Engine) (c : Action) : Prop :=
  ∀ h, en.registry.handler? c.kind = some h → ∀ today config,
    h.script ⟨{ c with isTest := true }, today, config⟩ = h.script ⟨c, today, config⟩

theorem run_isTest (hmark : c.IgnoresMark en) (depth : Nat) :
    ({ c with isTest := true } : Action).run en depth = c.run en depth := by
  obtain ⟨kind, name, params, negative, isTest, source⟩ := c
  rw [run, run]
  dsimp only
  split
  · rfl
  · split
    · rfl
    · next h hh => rw [hmark h hh]

/-- If the action returns, it completed or failed. -/
def Decides (en : Engine) (c : Action) (s : RunState) : Prop :=
  ∀ r, (outcome (c.run en 0) s).1 = .ok r → r.kind = .complete ∨ r.kind = .fail

/-- A test and IFTTT come to the same. -/
theorem outcome_chain (name source : String) {s : RunState} (hifttt : en.HasIfttt)
    (hmark : c.IgnoresMark en) (hdecides : e?.isSome = true → c.Decides en s)
    (hwithin : (branching name source c t e?).isWithin en 0 s = true) :
    outcome ((Instruction.chain c t e?).run en) s =
      outcome ((branching name source c t e?).run en 0) s := by
  obtain ⟨h, hhandler, hscript⟩ := Option.map_eq_some_iff.1 hifttt
  have hbranching : outcome ((branching name source c t e?).run en 0) s =
      continued (afterIf en t e?) (outcome (c.run en 0) s) := by
    rw [run_of_isWithin hhandler hwithin, hscript]
    show continued _ (outcome ((Builtin.ifttt _).exec .ifttt _) s) = _
    rw [outcome_exec_ifttt]
    rcases continued (afterIf en t e?) (outcome (c.run en 0) s) with ⟨e | r, u⟩ <;> rfl
  have hchain : (Instruction.chain c t e?).run en = c.run en 0 >>= afterTest en t e? := by
    rw [Instruction.chain, Instruction.run, run_isTest hmark]
    rfl
  rw [hchain, hbranching, outcome_bind]
  rcases hc : outcome (c.run en 0) s with ⟨e | r, u⟩
  · rfl
  rw [Decides, hc] at hdecides
  rw [continued, continued, afterTest_eq_afterIf fun he => hdecides he r rfl]

end Action

/-- The engine's own handlers do not look at the mark of conditions. -/
theorem Action.ignoresMark_of_builtin {en : Engine} (h : en.registry = .builtin) (c : Action) :
    c.IgnoresMark en := by
  intro handler hhandler today config
  have hkind : ({ c with isTest := true } : Action).kind = c.kind := rfl
  have hparams : ({ c with isTest := true } : Action).params = c.params := rfl
  exact Builtin.script_congr (Registry.script?_of_builtin h hhandler) hkind hparams today config

namespace Step

variable {en : Engine} {c t : Action} {e? : Option Action}

theorem runAll_congr {i i' : Instruction} {last : Result} {s : RunState}
    (h : outcome (i.run en) s = outcome (i'.run en) s) :
    outcome (Instruction.runAll en last [i]) s = outcome (Instruction.runAll en last [i']) s := by
  rw [Instruction.runAll, Instruction.runAll, outcome_bind, outcome_bind, h]

/-- **A test and IFTTT mean the same**: results, errors, targets, halts and traces agree. -/
theorem run_chain (name source : String) (s : Step) (j : Journal) (hifttt : en.HasIfttt)
    (hmark : c.IgnoresMark en) (hdecides : e?.isSome = true → c.Decides en j.state)
    (hwithin : (Action.branching name source c t e?).isWithin en 0 j.state = true) :
    outcome (({ s with instructions := [.chain c t e?] } : Step).run en) j =
      outcome (({ s with instructions := [.action (.branching name source c t e?)] } : Step).run en)
        j :=
  run_congr (runAll_congr (Action.outcome_chain name source hifttt hmark hdecides hwithin))

/-- With `in("a")=>SET("yes")=>SET("no")` on the target `"b"`. -/
theorem run_chain_one_of :
    let en : Engine := { registry := .builtin, today := .earliest }
    let c : Action := .of .oneOf [.literal (.text "a")]
    let t : Action := .of .set [.literal (.text "yes")]
    let e : Action := .of .set [.literal (.text "no")]
    let j : Journal := { state := { target := .text "b" } }
    let test : Step := { name := "s", instructions := [.chain c t (some e)] }
    let ifttt : Step :=
      { name := "s", instructions := [.action (.branching "IFTTT" "" c t (some e))] }
    outcome (test.run en) j = outcome (ifttt.run en) j ∧
      (outcome (test.run en) j).2.state.target = .text "no" := by
  have hdecides : Action.Decides { registry := .builtin, today := .earliest }
      (.of .oneOf [.literal (.text "a")]) { target := .text "b" } := by
    intro r hr
    have hfails : Except.ok (.fail "'b' is not in the list") = Except.ok r := hr
    cases hfails
    exact .inr rfl
  refine ⟨?_, rfl⟩
  exact run_chain "IFTTT" "" { name := "s" } { state := { target := .text "b" } } rfl
    (Action.ignoresMark_of_builtin rfl _) (fun _ => hdecides) rfl

/-- A step ends otherwise with the test than with IFTTT. -/
def Differs (en : Engine) (c t e : Action) (j : Journal) : Prop :=
  (outcome (({ name := "s", instructions := [.chain c t (some e)] } : Step).run en) j).1 ≠
    (outcome (({ name := "s", instructions := [.action (.branching "IFTTT" "" c t (some e))] } :
      Step).run en) j).1

/-- **Each of the conditions is needed**: no depth limit is reached, and yet a step differs

* with `SWITCH("a",SET("x"))` for the condition, of which neither case applies,
* with no handler for IFTTT,
* with a handler of the condition that looks at the mark. -/
theorem run_chain_needs :
    (∃ (en : Engine) (c t e : Action) (j : Journal),
      (Action.branching "IFTTT" "" c t (some e)).isWithin en 0 j.state = true ∧
        en.HasIfttt ∧ c.IgnoresMark en ∧ Differs en c t e j) ∧
    (∃ (en : Engine) (c t e : Action) (j : Journal),
      (Action.branching "IFTTT" "" c t (some e)).isWithin en 0 j.state = true ∧
        c.IgnoresMark en ∧ c.Decides en j.state ∧ Differs en c t e j) ∧
    (∃ (en : Engine) (c t e : Action) (j : Journal),
      (Action.branching "IFTTT" "" c t (some e)).isWithin en 0 j.state = true ∧
        en.HasIfttt ∧ c.Decides en j.state ∧ Differs en c t e j) := by
  refine ⟨?_, ?_, ?_⟩
  · refine ⟨{ registry := .builtin, today := .earliest },
      .of .switch [.literal (.text "a"), .action (.of .set [.literal (.text "x")])],
      .of .set [.literal (.bool true)], .of .set [.literal (.bool false)],
      { state := { target := .text "b" } }, rfl, rfl, Action.ignoresMark_of_builtin rfl _, ?_⟩
    intro h
    have hresults : Except.ok Result.noAction =
      (.ok (.completeWith (.bool false)) : Except RunError Result) := h
    cases hresults
  · let registry := Registry.empty.register .set { script := Builtin.set }
    refine ⟨{ registry, today := .earliest }, .of .set [.literal (.text "x")],
      .of .set [.literal (.bool true)], .of .set [.literal (.bool false)],
      { state := { target := .text "b" } }, rfl, ?_, ?_, ?_⟩
    · intro h hh today config
      cases hh
      rfl
    · intro r hr
      have hsets : Except.ok (.completeWith (.text "x")) = Except.ok r := hr
      cases hsets
      exact .inl rfl
    · intro h
      have hresults : Except.ok (Result.completeWith (.bool true)) =
        Except.error (RunError.noHandler .ifttt) := h
      cases hresults
  · let handler : Handler := { script := fun call => return .ofBool call.action.isTest "no test" }
    refine ⟨{ registry := Registry.builtin.register .check handler, today := .earliest },
      .of .check [.literal (.text "x")], .of .set [.literal (.bool true)],
      .of .set [.literal (.bool false)], { state := { target := .text "b" } }, rfl, rfl, ?_, ?_⟩
    · intro r hr
      have hfails : Except.ok (.fail "no test") = Except.ok r := hr
      cases hfails
      exact .inr rfl
    · intro h
      have hresults : Except.ok (Result.completeWith (.bool true)) =
        (.ok (.completeWith (.bool false)) : Except RunError Result) := h
      cases hresults

end Step

end Rulebook
