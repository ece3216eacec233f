import Rulebook.Action.Parse
import Rulebook.Proofs.Run.Comparison
import Rulebook.Proofs.Step.Branching

/-!
# SWITCH as a chain of IFTTT

With a default, SWITCH runs the action of the first case that equals the target, and the default
where none does.  So it comes to the same as a chain of IFTTT with a comparison for each case:

    SWITCH(c₁,a₁,…,cₙ,aₙ,d)
    IFTTT(eq(c₁),a₁,…IFTTT(eq(cₙ),aₙ,d)…)

**Main result** `Action.run_switch_eq_chain`: results, errors, targets and halts are the same, as
long as the chain, which nests deeper, meets no limit.  Cases are literals and references, so that
looking at them changes nothing; both run `chosen`, at different depths.
-/

namespace Rulebook

open Script

/-! ## The case that applies -/

namespace Param

/-- The value of a literal or a reference. -/
def plainValue : Param → Value → Value
  | .literal v, _ => v
  | .reference o p, t => ParamRun.resolve o p t
  | _, _ => .null

def IsPlain : Param → Prop
  | .literal _ | .reference _ _ => True
  | _ => False

/-- Literals and references are looked at without any effect. -/
theorem IsPlain.outcome_value {p : Param} (h : p.IsPlain) (en : Engine) (depth : Nat)
    (s : RunState) : outcome (Action.runParam en p depth).value s =
      (.ok (p.plainValue s.target), s) := by
  cases p with
  | literal | reference => rfl
  | rule | action => exact h.elim

end Param

/-- The action of the first case that equals the target, or else the default. -/
def Action.chosen (target : Value) : List (Param × Action) → Action → Action
  | [], d => d
  | (c, a) :: cases, d =>
    if Value.equalLoose false target (c.plainValue target) then a else chosen target cases d

/-! ## SWITCH -/

namespace Action

variable {en : Engine} {cases : List (Param × Action)} {d a q t e : Action} {c : Param}
  {depth : Nat} {s : RunState}

/-- The parameters of cases and a default. -/
def caseParams (cases : List (Param × Action)) (d : Action) : List Param :=
  cases.flatMap (fun x => [x.1, .action x.2]) ++ [.action d]

theorem length_caseParams (cases : List (Param × Action)) (d : Action) :
    (caseParams cases d).length = 2 * cases.length + 1 := by
  induction cases with
  | nil => rfl
  | cons x cases ih =>
    show (caseParams cases d).length + 1 + 1 = _
    rw [ih, List.length_cons]
    omega

/-- The cases from `index` on, and the default behind them. -/
theorem outcome_switchFrom {ps : List Param} (kind : ActionKind)
    (hplain : ∀ x ∈ cases, x.1.IsPlain) {index : Nat} (hps : ps.drop index = caseParams cases d) :
    outcome ((Builtin.switchFrom (Script.runParam (index + 2 * cases.length)) index
      cases.length).exec kind (runParams en ps depth)) s =
      outcome ((chosen s.target cases d).run en depth) s := by
  induction cases generalizing index with
  | nil =>
    have hd : ps[index]? = some (.action d) := by
      rw [← Nat.add_zero index, ← List.getElem?_drop, hps]
      rfl
    show outcome ((Script.runParam index).exec kind _) s = _
    rw [outcome_exec_runParam, at_runParams hd]
    rfl
  | cons x cases ih =>
    obtain ⟨c, a⟩ := x
    obtain ⟨hc, hrest⟩ := List.forall_mem_cons.1 hplain
    have hcons : ps.drop index = c :: .action a :: caseParams cases d := hps
    have hcase : ps[index]? = some c := by
      rw [← Nat.add_zero index, ← List.getElem?_drop, hcons]
      rfl
    have haction : ps[index + 1]? = some (.action a) := by
      rw [← List.getElem?_drop, hcons]
      rfl
    have hdrop : ps.drop (index + 2) = caseParams cases d := by
      rw [← List.drop_drop, hcons]
      rfl
    have hlast : index + 2 * (cases.length + 1) = index + 2 + 2 * cases.length := by omega
    have hvalue := hc.outcome_value en depth s
    rw [← at_runParams hcase kind depth] at hvalue
    rw [List.length_cons, hlast, Builtin.switchFrom, outcome_exec_bind,
      outcome_exec_getValue hvalue, continued, outcome_exec_bind]
    show outcome (exec kind _ (if _ then _ else _)) s = _
    rw [chosen]
    split
    · rw [outcome_exec_runParam, at_runParams haction]
      rfl
    · exact ih hrest hdrop

/-- The action `SWITCH(c₁,a₁,…,cₙ,aₙ,d)`, however it is written. -/
structure Switches (cases : List (Param × Action)) (d a : Action) : Prop where
  kind : a.kind = .switch
  params : a.params = caseParams cases d
  negative : a.negative = false

/-- SWITCH runs the action that is chosen. -/
theorem Switches.outcome_run (h : Switches cases d a)
    (hswitch : (en.registry.handler? .switch).map Handler.script = some Builtin.switch)
    (hplain : ∀ x ∈ cases, x.1.IsPlain) (hdepth : depth ≤ en.maxDepth) :
    outcome (a.run en depth) s = outcome ((chosen s.target cases d).run en (depth + 1)) s := by
  obtain ⟨handler, hhandler, hscript⟩ := Option.map_eq_some_iff.1 hswitch
  have hcount : (⟨a, en.today, en.evaluator.config⟩ : Call).count = 2 * cases.length + 1 := by
    rw [Call.count, h.params, length_caseParams]
  have hodd : (2 * cases.length + 1) % 2 = 1 := by omega
  have hhalf : (2 * cases.length + 1) / 2 = cases.length := by omega
  have hfrom : Builtin.switch ⟨a, en.today, en.evaluator.config⟩ =
      Builtin.switchFrom (Script.runParam (0 + 2 * cases.length)) 0 cases.length := by
    unfold Builtin.switch
    rw [hcount, if_pos hodd, hhalf, Nat.add_sub_cancel, Nat.zero_add]
  rw [run_eq, if_neg (Nat.not_lt.2 hdepth), h.kind, hhandler]
  dsimp only
  rw [outcome_bind, hscript, hfrom, h.params, outcome_switchFrom .switch hplain rfl, h.negative]
  rcases outcome ((chosen s.target cases d).run en (depth + 1)) s with ⟨e | r, u⟩ <;> rfl

/-! ## The chain -/

/-- The action `eq(c)`, however it is written. -/
structure Equals (c : Param) (a : Action) : Prop where
  kind : a.kind = .eq
  params : a.params = [c]
  negative : a.negative = false

/-- The action `IFTTT(q,t,e)`, however it is written. -/
structure Branches (q t e a : Action) : Prop where
  kind : a.kind = .ifttt
  params : a.params = [.action q, .action t, .action e]
  negative : a.negative = false

/-- The chain `IFTTT(eq(c₁),a₁,…IFTTT(eq(cₙ),aₙ,d)…)`, however it is written. -/
def Chains : List (Param × Action) → Action → Action → Prop
  | [], d, a => a = d
  | (c, t) :: cases, d, a => ∃ q e, Equals c q ∧ Chains cases d e ∧ Branches q t e a

/-- The comparison of the target with a case. -/
theorem Equals.outcome_run (h : Equals c a)
    (heq : (en.registry.handler? .eq).map Handler.script = Builtin.script? .eq)
    (hplain : c.IsPlain) (hdepth : depth ≤ en.maxDepth) : ∃ reason,
      outcome (a.run en depth) s =
        (.ok (.ofBool (Value.equalLoose false s.target (c.plainValue s.target)) reason), s) := by
  obtain ⟨handler, hhandler, hscript⟩ := Option.map_eq_some_iff.1 (heq.trans rfl)
  have hcount : (⟨a, en.today, en.evaluator.config⟩ : Call).count =
      [c.plainValue s.target].length := by
    rw [Call.count, h.params]
    rfl
  have hvalues : ∀ i v, [c.plainValue s.target][i]? = some v → outcome (ParamRun.at .eq
      (runParams en [c] (depth + 1)) i).value s = (.ok v, s) := by
    intro i v hv
    cases i with
    | zero =>
      cases hv
      exact hplain.outcome_value en (depth + 1) s
    | succ i => cases hv
  obtain ⟨reason, hreason⟩ :=
    Builtin.outcome_comparison (· == .eq) "=" hcount (List.cons_ne_nil _ _) hvalues
  refine ⟨reason, ?_⟩
  rw [run_eq, if_neg (Nat.not_lt.2 hdepth), h.kind, hhandler]
  dsimp only
  rw [outcome_bind, hscript, h.params, hreason, continued, h.negative]
  rfl

/-- The branch that follows a condition. -/
def branch (t e : Action) (r : Result) : Action := if r.isComplete then t else e

/-- The script of IFTTT runs the condition, and then a branch. -/
theorem Branches.script_eq (h : Branches q t e a) (today : Date) (config : Config) :
    Builtin.ifttt ⟨a, today, config⟩ = (Script.runParam 0 >>= fun r =>
      Script.runParam (if r.isComplete then 1 else 2)) := by
  have hcount : (⟨a, today, config⟩ : Call).count = 3 := by
    rw [Call.count, h.params]
    rfl
  unfold Builtin.ifttt
  refine congrArg _ (funext fun r => ?_)
  rw [hcount, if_pos rfl]
  split <;> rfl

theorem Branches.getElem?_condition (h : Branches q t e a) : a.params[0]? = some (.action q) := by
  rw [h.params]
  rfl

theorem Branches.getElem?_branch (h : Branches q t e a) (r : Result) :
    a.params[if r.isComplete then 1 else 2]? = some (.action (branch t e r)) := by
  rw [h.params, branch]
  split <;> rfl

/-- The branch that follows is run one level deeper. -/
theorem Branches.outcome_run (h : Branches q t e a) (hifttt : en.HasIfttt)
    (hdepth : depth ≤ en.maxDepth) :
    outcome (a.run en depth) s = continued (fun r => (branch t e r).run en (depth + 1))
      (outcome (q.run en (depth + 1)) s) := by
  obtain ⟨handler, hhandler, hscript⟩ := Option.map_eq_some_iff.1 hifttt
  rw [run_eq, if_neg (Nat.not_lt.2 hdepth), h.kind, hhandler]
  dsimp only
  rw [outcome_bind, hscript, h.script_eq, outcome_exec_bind, outcome_exec_runParam,
    at_runParams h.getElem?_condition, h.negative]
  show continued _ (continued _ (outcome (q.run en (depth + 1)) s)) = _
  rcases outcome (q.run en (depth + 1)) s with ⟨e' | r, u⟩
  · rfl
  rw [continued, continued, outcome_exec_runParam, at_runParams (h.getElem?_branch r)]
  show continued _ (outcome ((branch t e r).run en (depth + 1)) u) = _
  rcases outcome ((branch t e r).run en (depth + 1)) u with ⟨e' | r', w⟩ <;> rfl

/-- The condition is within the limit, and so is the branch that follows. -/
theorem Branches.isWithin (h : Branches q t e a) (hifttt : en.HasIfttt)
    (hwithin : a.isWithin en depth s = true) :
    depth ≤ en.maxDepth ∧ q.isWithin en (depth + 1) s = true ∧
      ∀ r u, outcome (q.run en (depth + 1)) s = (.ok r, u) →
        (branch t e r).isWithin en (depth + 1) u = true := by
  obtain ⟨handler, hhandler, hscript⟩ := Option.map_eq_some_iff.1 hifttt
  rw [isWithin_eq, Bool.and_eq_true, decide_eq_true_eq, h.kind, hhandler] at hwithin
  obtain ⟨hdepth, hasked⟩ := hwithin
  dsimp only at hasked
  rw [hscript, h.script_eq, Script.asked_runParam_bind, List.all_cons, Bool.and_eq_true,
    areWithin_eq h.getElem?_condition, at_runParams h.getElem?_condition] at hasked
  refine ⟨hdepth, hasked.1, fun r u hq => ?_⟩
  have hcondition : outcome (runParam en (.action q) (depth + 1)).run s = (.ok r, u) := hq
  have hbranch := hasked.2
  rw [hcondition] at hbranch
  dsimp only at hbranch
  rw [Script.asked_runParam, List.all_cons, Bool.and_eq_true,
    areWithin_eq (h.getElem?_branch r)] at hbranch
  exact hbranch.1

/-! ## Both -/

end Action

/-- SWITCH, IFTTT and `eq` are run by the engine's own handlers. -/
structure Engine.HasBranches (en : Engine) : Prop where
  switch : (en.registry.handler? .switch).map Handler.script = some Builtin.switch
  ifttt : en.HasIfttt
  eq : (en.registry.handler? .eq).map Handler.script = Builtin.script? .eq

theorem Engine.hasBranches_of_builtin {en : Engine} (h : en.registry = .builtin) :
    en.HasBranches := by
  refine ⟨?_, ?_, ?_⟩
  · rw [h]
    rfl
  · rw [Engine.HasIfttt, h]
    rfl
  · rw [h]
    rfl

namespace Action

variable {en : Engine} {cases : List (Param × Action)} {d a b : Action} {depth : Nat}
  {s : RunState}

/-- A chain runs the action that is chosen; one level below the chain that is within the limit. -/
theorem outcome_run_of_chains (hen : en.HasBranches) (hchain : Chains cases d a)
    (hne : cases ≠ []) (hplain : ∀ x ∈ cases, x.1.IsPlain)
    (hwithin : a.isWithin en depth s = true) :
    outcome (a.run en depth) s = outcome ((chosen s.target cases d).run en (depth + 1)) s ∧
      (chosen s.target cases d).isWithin en (depth + 1) s = true := by
  induction cases generalizing a depth with
  | nil => exact absurd rfl hne
  | cons x cases ih =>
    obtain ⟨c, t⟩ := x
    obtain ⟨q, e, hequals, hrest, hbranches⟩ := hchain
    obtain ⟨hc, hplain⟩ := List.forall_mem_cons.1 hplain
    obtain ⟨hdepth, hcondition, hbranch⟩ := hbranches.isWithin hen.ifttt hwithin
    rw [isWithin_eq, Bool.and_eq_true, decide_eq_true_eq] at hcondition
    obtain ⟨reason, hq⟩ := hequals.outcome_run (s := s) hen.eq hc hcondition.1
    have hbranch := hbranch _ _ hq
    have hrun := hbranches.outcome_run (s := s) hen.ifttt hdepth
    rw [hq, continued] at hrun
    rw [hrun, chosen]
    rw [branch, Builtin.isComplete_ofBool] at hbranch ⊢
    split at hbranch
    · next hequal =>
      rw [if_pos hequal, if_pos hequal]
      exact ⟨rfl, hbranch⟩
    · next hequal =>
      rw [if_neg hequal, if_neg hequal]
      by_cases hlast : cases = []
      · subst hlast
        rw [chosen, ← hrest]
        exact ⟨rfl, hbranch⟩
      · obtain ⟨hchosen, hdeeper⟩ := ih hrest hlast hplain hbranch
        rw [hchosen, run_eq_of_isWithin en _ _ _ hdeeper]
        exact ⟨rfl, isWithin_of_succ en _ _ _ hdeeper⟩

/-- **SWITCH with a default is a chain of IFTTT**: the result or the error, the target and the halt
are the same, whatever the branches do and however they end. -/
theorem run_switch_eq_chain (hen : en.HasBranches) (hne : cases ≠ [])
    (hplain : ∀ x ∈ cases, x.1.IsPlain) (hswitch : Switches cases d a) (hchain : Chains cases d b)
    (hwithin : b.isWithin en depth s = true) :
    outcome (a.run en depth) s = outcome (b.run en depth) s := by
  have hdepth : depth ≤ en.maxDepth := by
    rw [isWithin_eq, Bool.and_eq_true, decide_eq_true_eq] at hwithin
    exact hwithin.1
  rw [hswitch.outcome_run hen.switch hplain hdepth,
    (outcome_run_of_chains hen hchain hne hplain hwithin).1]

/-- With `"a"`, a reference and `"b"` on the target `"b"`, END is run. -/
theorem run_switch_eq_chain_of_three :
    let en : Engine := { registry := .builtin, today := .earliest }
    let s : RunState := { target := .text "b" }
    let set (n : Int64) : Action := .of .set [.literal (.integer n)]
    let eq (c : Param) : Action := .of .eq [c]
    let cases : List (Param × Action) := [(.literal (.text "a"), set 1),
      (.reference "o" "x", set 2), (.literal (.text "b"), .of .stop [])]
    let a : Action := .of .switch (caseParams cases (set 3))
    let b : Action := .of .ifttt [.action (eq (.literal (.text "a"))), .action (set 1),
      .action (.of .ifttt [.action (eq (.reference "o" "x")), .action (set 2),
        .action (.of .ifttt [.action (eq (.literal (.text "b"))), .action (.of .stop []),
          .action (set 3)])])]
    b.isWithin en 0 s = true ∧ outcome (a.run en 0) s = outcome (b.run en 0) s ∧
      outcome (a.run en 0) s = (.ok .complete, { s with halted := true }) := by
  intro en s set eq cases a b
  have hplain : ∀ x ∈ cases, x.1.IsPlain := by
    simp only [cases, List.forall_mem_cons]
    exact ⟨trivial, trivial, trivial, nofun⟩
  have hchain : Chains cases (set 3) b :=
    ⟨_, _, ⟨rfl, rfl, rfl⟩, ⟨_, _, ⟨rfl, rfl, rfl⟩, ⟨_, _, ⟨rfl, rfl, rfl⟩, rfl, ⟨rfl, rfl, rfl⟩⟩,
      ⟨rfl, rfl, rfl⟩⟩, ⟨rfl, rfl, rfl⟩⟩
  have hwithin : b.isWithin en 0 s = true := by decide +kernel
  have hswitch : Switches cases (set 3) a := ⟨rfl, rfl, rfl⟩
  have hen : en.HasBranches := Engine.hasBranches_of_builtin rfl
  have hchosen : chosen s.target cases (set 3) = .of .stop [] := by
    have hfirst : Value.equalLoose false (.text "b") (.text "a") = false := by decide +kernel
    have hsecond : Value.equalLoose false (.text "b") .null = false := by decide +kernel
    have hthird : Value.equalLoose false (.text "b") (.text "b") = true := by decide +kernel
    show (if Value.equalLoose false (.text "b") (.text "a") then _ else
      if Value.equalLoose false (.text "b") .null then _ else
        if Value.equalLoose false (.text "b") (.text "b") then _ else _) = _
    rw [hfirst, hsecond, hthird]
    rfl
  refine ⟨hwithin, run_switch_eq_chain hen (List.cons_ne_nil _ _) hplain hswitch hchain hwithin, ?_⟩
  rw [hswitch.outcome_run hen.switch hplain (Nat.zero_le _), hchosen]
  rfl

end Action

end Rulebook
