import Rulebook.Proofs.Run.Range
import Rulebook.Proofs.Value.Order

/-!
# Comparisons as actions

The five comparisons put the same two values in order, and each says yes to some of the three ways
that these may stand:

            <    =    >
    gt                x
    eq           x
    lt      x
    gte          x    x
    lte     x    x

Loose comparison is oriented, so the table is that of an order, whichever side is written first.
-/

namespace Rulebook

open Script

namespace Builtin

variable {kind : ActionKind} {params : List ParamRun} {a b : Value} {vs : List Value} {c : Call}

/-- The two sides of a comparison with these parameters. -/
def sides (vs : List Value) (target : Value) : Value × Value :=
  match vs with
  | [a, b] => (a, b)
  | b :: _ => (target, b)
  | [] => (target, .null)

theorem outcome_operands (hcount : c.count = vs.length) (hne : vs ≠ []) {s : RunState}
    (hparams : ∀ i v, vs[i]? = some v → outcome (ParamRun.at kind params i).value s = (.ok v, s)) :
    outcome ((operands c).exec kind params) s = (.ok (sides vs s.target), s) := by
  unfold operands
  rw [hcount]
  by_cases htwo : vs.length = 2
  · obtain ⟨a, b, rfl⟩ := List.length_eq_two.1 htwo
    rw [if_pos htwo, outcome_exec_bind, outcome_exec_getValue (hparams 0 a rfl), continued,
      outcome_exec_bind, outcome_exec_getValue (hparams 1 b rfl)]
    rfl
  · obtain ⟨b, rest, rfl⟩ := List.exists_cons_of_ne_nil hne
    have hsides : sides (b :: rest) s.target = (s.target, b) := by
      rcases rest with _ | ⟨c, _ | ⟨d, rest⟩⟩
      · rfl
      · exact absurd rfl htwo
      · rfl
    rw [if_neg htwo, hsides, outcome_exec_bind]
    show continued _ (.ok s.target, s) = _
    rw [continued, outcome_exec_bind, outcome_exec_getValue (hparams 0 b rfl)]
    rfl

theorem outcome_comparison (holds : Ordering → Bool) (verb : String) (hcount : c.count = vs.length)
    (hne : vs ≠ []) {s : RunState}
    (hparams : ∀ i v, vs[i]? = some v → outcome (ParamRun.at kind params i).value s = (.ok v, s)) :
    ∃ reason, outcome ((comparison holds verb c).exec kind params) s =
      (.ok (.ofBool (holds (Value.compareLoose false (sides vs s.target).1 (sides vs s.target).2))
        reason), s) := by
  unfold comparison
  rw [outcome_exec_bind, outcome_operands hcount hne hparams]
  exact ⟨_, rfl⟩

/-- The comparison that says yes to one of the ways in which two values may stand only. -/
def strict : Ordering → ActionKind
  | .lt => .lt
  | .eq => .eq
  | .gt => .gt

end Builtin

namespace Action

variable {en : Engine} {a : Action} {vs : List Value} {depth : Nat} {s : RunState}

/-- The literals are the values of the parameters. -/
theorem outcome_value_literal {i : Nat} {v : Value} (h : vs[i]? = some v) (kind : ActionKind) :
    outcome (ParamRun.at kind (runParams en (vs.map .literal) depth) i).value s = (.ok v, s) := by
  have hparam : (vs.map ParamOf.literal : List Param)[i]? = some (.literal v) := by
    rw [List.getElem?_map, h]
    rfl
  rw [at_runParams hparam]
  rfl

/-- The run completes, in the state it started in. -/
def Completes (en : Engine) (a : Action) (depth : Nat) (s : RunState) : Prop :=
  ∃ r, outcome (a.run en depth) s = (.ok r, s) ∧ r.isComplete = true

/-- The run fails, in the state it started in. -/
def Fails (en : Engine) (a : Action) (depth : Nat) (s : RunState) : Prop :=
  ∃ r, outcome (a.run en depth) s = (.ok r, s) ∧ r.isFail = true

/-- The action is the comparison of a kind with these literals, done by the engine itself. -/
structure Compares (en : Engine) (vs : List Value) (k : ActionKind) (a : Action) : Prop where
  script : (en.registry.handler? k).map Handler.script = Builtin.script? k
  given : vs ≠ []
  kind : a.kind = k
  params : a.params = vs.map .literal
  negative : a.negative = false

/-- A comparison of literals completes or fails by the order of its sides. -/
theorem Compares.decides {k : ActionKind} {holds : Ordering → Bool} {verb : String}
    (h : Compares en vs k a) (hscript : Builtin.script? k = some (Builtin.comparison holds verb))
    (hdepth : depth ≤ en.maxDepth) (s : RunState) :
    (Completes en a depth s ∨ Fails en a depth s) ∧
      (Completes en a depth s ↔ holds (Value.compareLoose false (Builtin.sides vs s.target).1
        (Builtin.sides vs s.target).2) = true) := by
  obtain ⟨handler, hhandler, hcomparison⟩ := Option.map_eq_some_iff.1 (h.script.trans hscript)
  have hcount : (⟨a, en.today, en.evaluator.config⟩ : Call).count = vs.length := by
    rw [Call.count, h.params, List.length_map]
  have hvalues : ∀ i v, vs[i]? = some v → outcome (ParamRun.at a.kind
      (runParams en (vs.map .literal) (depth + 1)) i).value s = (.ok v, s) :=
    fun i v hv => outcome_value_literal hv a.kind
  obtain ⟨reason, hreason⟩ := Builtin.outcome_comparison holds verb hcount h.given hvalues
  generalize holds _ = passed at hreason ⊢
  have hrun : outcome (a.run en depth) s = (.ok (.ofBool passed reason), s) := by
    rw [run_eq, if_neg (Nat.not_lt.2 hdepth), h.kind, hhandler]
    dsimp only
    rw [outcome_bind, hcomparison, h.params, ← h.kind, hreason, continued, h.negative]
    rfl
  constructor
  · cases passed
    · exact .inr ⟨_, hrun, rfl⟩
    · exact .inl ⟨_, hrun, rfl⟩
  · constructor
    · rintro ⟨r, hr, hcomplete⟩
      cases hrun.symm.trans hr
      rwa [Builtin.isComplete_ofBool] at hcomplete
    · rintro rfl
      exact ⟨_, hrun, rfl⟩

/-- The comparisons of the engine. -/
def comparisons : List ActionKind := [.gt, .eq, .lt, .gte, .lte]

/-- **Loose comparison is oriented, and of the comparisons of two literals, or of the target with
one, exactly one of `gt`, `eq` and `lt` completes**, while `gte` and `lte` complete where `lt` and
`gt` do not. -/
theorem exactly_one_completes :
    (∀ ci a b, Value.compareLoose ci a b = (Value.compareLoose ci b a).swap ∧
      Value.compareLoose ci a a = .eq) ∧
    ∀ (en : Engine) (vs : List Value) (act : ActionKind → Action),
      (∀ k ∈ comparisons, Compares en vs k (act k)) → ∀ depth ≤ en.maxDepth, ∀ s : RunState,
        (∀ k ∈ comparisons, Completes en (act k) depth s ∨ Fails en (act k) depth s) ∧
        (∃! k, k ∈ [ActionKind.gt, .eq, .lt] ∧ Completes en (act k) depth s) ∧
        (Completes en (act .gte) depth s ↔ ¬Completes en (act .lt) depth s) ∧
        (Completes en (act .lte) depth s ↔ ¬Completes en (act .gt) depth s) := by
  refine ⟨fun ci a b => ⟨Std.OrientedCmp.eq_swap, Std.ReflCmp.compare_self⟩, ?_⟩
  intro en vs act hact depth hdepth s
  rw [comparisons] at hact ⊢
  simp only [List.forall_mem_cons, List.not_mem_nil, false_implies, implies_true,
    and_true] at hact ⊢
  obtain ⟨hgt, heq, hlt, hgte, hlte⟩ := hact
  obtain ⟨hgt, hgtiff⟩ := hgt.decides rfl hdepth s
  obtain ⟨heq, heqiff⟩ := heq.decides rfl hdepth s
  obtain ⟨hlt, hltiff⟩ := hlt.decides rfl hdepth s
  obtain ⟨hgte, hgteiff⟩ := hgte.decides rfl hdepth s
  obtain ⟨hlte, hlteiff⟩ := hlte.decides rfl hdepth s
  refine ⟨⟨hgt, heq, hlt, hgte, hlte⟩, ?_⟩
  generalize Value.compareLoose false _ _ = o at hgtiff heqiff hltiff hgteiff hlteiff
  have hstrict : ∀ k ∈ [ActionKind.gt, .eq, .lt],
      (Completes en (act k) depth s ↔ k = Builtin.strict o) := by
    simp only [List.forall_mem_cons, List.not_mem_nil, false_implies, implies_true, and_true]
    refine ⟨hgtiff.trans ?_, heqiff.trans ?_, hltiff.trans ?_⟩ <;> cases o <;> decide
  refine ⟨⟨Builtin.strict o, ?_, fun k hk => (hstrict k hk.1).1 hk.2⟩, ?_, ?_⟩
  · have hmem : Builtin.strict o ∈ [ActionKind.gt, .eq, .lt] := by
      cases o <;> decide
    exact ⟨hmem, (hstrict _ hmem).2 rfl⟩
  · rw [hgteiff, hltiff, bne_iff_ne, beq_iff_eq]
  · rw [hlteiff, hgtiff, bne_iff_ne, beq_iff_eq]

/-- Of the comparisons of 7 with the decimal 2.5, `gt` completes. -/
theorem exactly_one_completes_seven :
    let en : Engine := { registry := .builtin, today := .earliest }
    let s : RunState := { target := .integer 7 }
    let act (k : ActionKind) : Action := .of k [.literal (.decimal 2.5)]
    (∃! k, k ∈ [ActionKind.gt, .eq, .lt] ∧ Completes en (act k) 0 s) ∧
      Completes en (act .gt) 0 s ∧ Completes en (act .gte) 0 s ∧ ¬Completes en (act .lte) 0 s := by
  intro en s act
  have hact : ∀ k ∈ comparisons, Compares en [.decimal 2.5] k (act k) := by
    intro k hk
    have hscript : (en.registry.handler? k).map Handler.script = Builtin.script? k := by
      show ((Builtin.script? k).map fun script => ({ script } : Handler)).map Handler.script = _
      rw [Option.map_map]
      exact Option.map_id'
    exact ⟨hscript, List.cons_ne_nil _ _, rfl, rfl, rfl⟩
  obtain ⟨-, hone, hgte, hlte⟩ :=
    exactly_one_completes.2 en [.decimal 2.5] act hact 0 (Nat.zero_le _) s
  have hgreater : Value.compareLoose false (.integer 7) (.decimal 2.5) = .gt := by decide +kernel
  have hgt : Completes en (act .gt) 0 s := by
    refine ((hact .gt (by decide)).decides rfl (Nat.zero_le _) s).2.2 ?_
    exact beq_iff_eq.2 hgreater
  have hlt : ¬Completes en (act .lt) 0 s := by
    intro h
    have hless := ((hact .lt (by decide)).decides rfl (Nat.zero_le _) s).2.1 h
    exact absurd (hgreater.symm.trans (beq_iff_eq.1 hless)) (by decide)
  exact ⟨hone, hgt, hgte.2 hlt, fun h => hlte.1 h hgt⟩

end Action

end Rulebook
