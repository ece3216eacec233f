import Rulebook.Proofs.Action.Built
import Rulebook.Proofs.Evaluation.Range
import Rulebook.Proofs.Run.Property

/-!
# Ranges in actions and in rules

The action `bw(l,h)` compares integers as they are.  So it does not agree with the rule `[|b(l,h)]`,
nor comparisons with `[|mx(l)]` and `[|mn(l)]`, where an integer beyond a limit has the same nearest
decimal as the limit; everywhere else they agree (`limits_of_integers`).
-/

namespace Rulebook

open Text Decimal

namespace Builtin

open Script

variable {kind : ActionKind} {params : List ParamRun} {low high : Value} {c : Call}

theorem isComplete_ofBool (passed : Bool) (reason : String) :
    (Result.ofBool passed reason).isComplete = passed := by cases passed <;> rfl

/-- With two bounds, the target is compared with each. -/
theorem outcome_between (hcount : c.count ≠ 3) (h0 : (ParamRun.at kind params 0).value = pure low)
    (h1 : (ParamRun.at kind params 1).value = pure high) (s : RunState) :
    ∃ r, outcome ((between c).exec kind params) s = (.ok r, s) ∧ (r.isComplete = true ↔
      Value.compareLoose false s.target low ≠ .lt ∧
        Value.compareLoose false s.target high ≠ .gt) := by
  unfold between
  simp only [hcount, if_false]
  rw [outcome_exec_bind]
  show ∃ r, continued _ (.ok s.target, s) = _ ∧ _
  rw [continued, outcome_exec_bind, outcome_exec_getValue_pure h0, continued, outcome_exec_bind,
    outcome_exec_getValue_pure h1, continued]
  refine ⟨_, rfl, ?_⟩
  rw [isComplete_ofBool, Bool.and_eq_true, bne_iff_ne, bne_iff_ne]

end Builtin

namespace Action

variable {config : Config} {en : Engine} {a : Action} {l h : String} {low high n : Int64}
  {s : RunState}

/-- A call of `bw` with two integers. -/
theorem parse_bw (config : Config) (hl : int64? l.toList = some low)
    (hh : int64? h.toList = some high) :
    ∃ a, Instruction.parse config ("bw(" ++ l ++ "," ++ h ++ ")") = .ok (.action a) ∧
      a.kind = .bw ∧ a.negative = false ∧
      a.params = [.literal (.integer low), .literal (.integer high)] := by
  have hreads : ∀ x ∈ [(l, low), (h, high)], ReadsAs config (read config config.maxDepth)
      x.1.toList (.literal (.integer x.2)) := by
    rw [List.forall_mem_cons, List.forall_mem_singleton]
    exact ⟨readsAs_integer hl, readsAs_integer hh⟩
  have hkind : ActionKind.ofName? (String.ofList ActionKind.bw.name.toList) = some .bw := by
    rw [String.ofList_toList, ofName?_name]
  have hname := isName_name .bw
  have hbody := readBody_call hname hkind
    (readParams_joined hreads (0 + byteLength ActionKind.bw.name.toList + 1)) rfl rfl
  have hparse := Instruction.parse_call hname (pieces_of_readBody hbody 0) hbody
  have htext : String.ofList (call ActionKind.bw.name.toList
      (List.intercalate [','] ([(l, low), (h, high)].map fun x => x.1.toList))) =
        "bw(" ++ l ++ "," ++ h ++ ")" := by
    rw [← String.toList_inj]
    simp [call, ActionKind.name, List.intercalate]
  rw [htext] at hparse
  exact ⟨_, hparse, rfl, rfl, rfl⟩

/-- Between two integers. -/
theorem run_bw (hbw : (en.registry.handler? .bw).map Handler.script = some Builtin.between)
    (hkind : a.kind = .bw) (hnegative : a.negative = false)
    (hparams : a.params = [.literal (.integer low), .literal (.integer high)])
    (hs : s.target = .integer n) : ∃ r, outcome (a.run en 0) s = (.ok r, s) ∧
      (r.isComplete = true ↔ low ≤ n ∧ n ≤ high) := by
  obtain ⟨handler, hhandler, hscript⟩ := Option.map_eq_some_iff.1 hbw
  have hcount : (⟨a, en.today, en.evaluator.config⟩ : Call).count ≠ 3 := by
    rw [Call.count, hparams]
    exact nofun
  have h0 : (ParamRun.at .bw (runParams en a.params 1) 0).value = pure (.integer low) := by
    rw [hparams]
    rfl
  have h1 : (ParamRun.at .bw (runParams en a.params 1) 1).value = pure (.integer high) := by
    rw [hparams]
    rfl
  obtain ⟨r, hr, hcomplete⟩ := Builtin.outcome_between hcount h0 h1 s
  rw [hs, Value.compareLoose_ne_lt_iff, Value.compareLoose_ne_gt_iff] at hcomplete
  refine ⟨r, ?_, hcomplete⟩
  rw [run_eq, if_neg (Nat.not_lt_zero _), hkind, hhandler]
  dsimp only
  rw [outcome_bind, hscript, hr, continued, hnegative]
  rfl

/-- The text is an action that runs on the value without an error, and completes just when `p`
holds. -/
def CompletesIff (config : Config) (en : Engine) (text : String) (v : Value) (p : Prop) : Prop :=
  ∃ a, Instruction.parse config text = .ok (.action a) ∧ ∀ s : RunState, s.target = v →
    ∃ r, outcome (a.run en 0) s = (.ok r, s) ∧ (r.isComplete = true ↔ p)

theorem CompletesIff.congr {text : String} {v : Value} {p q : Prop}
    (hp : CompletesIff config en text v p) (hpq : p ↔ q) : CompletesIff config en text v q := by
  obtain ⟨a, ha, hrun⟩ := hp
  refine ⟨a, ha, fun s hs => ?_⟩
  obtain ⟨r, hr, hcomplete⟩ := hrun s hs
  exact ⟨r, hr, hcomplete.trans hpq⟩

theorem completesIff_bw (hbw : (en.registry.handler? .bw).map Handler.script = some Builtin.between)
    (hl : int64? l.toList = some low) (hh : int64? h.toList = some high) :
    CompletesIff config en ("bw(" ++ l ++ "," ++ h ++ ")") (.integer n) (low ≤ n ∧ n ≤ high) := by
  obtain ⟨a, ha, hkind, hnegative, hparams⟩ := parse_bw config hl hh
  exact ⟨a, ha, fun s hs => run_bw hbw hkind hnegative hparams hs⟩

end Action

/-- **A modifier decides as the comparison does, but for integers with the same nearest decimal as
the limit**: these pass as well.  Up to `2 ^ 53` an integer is its nearest decimal. -/
theorem limits_of_integers (config : Config) (ev : Evaluator) {en : Engine} {l h : String}
    {low high : Int64}
    (hbw : (en.registry.handler? .bw).map Handler.script = some Builtin.between)
    (hl : int64? l.toList = some low) (hh : int64? h.toList = some high) (hle : low ≤ high)
    (n : Int64) :
    (Rule.PassesIff config ev ("[<=" ++ l ++ "]") (.integer n) (n ≤ low) ∧
      Rule.PassesIff config ev ("[|mx(" ++ l ++ ")]") (.integer n)
        (n ≤ low ∨ near n = near low)) ∧
    (Rule.PassesIff config ev ("[>=" ++ l ++ "]") (.integer n) (low ≤ n) ∧
      Rule.PassesIff config ev ("[|mn(" ++ l ++ ")]") (.integer n)
        (low ≤ n ∨ near low = near n)) ∧
    (Action.CompletesIff config en ("bw(" ++ l ++ "," ++ h ++ ")") (.integer n)
        (low ≤ n ∧ n ≤ high) ∧
      Rule.PassesIff config ev ("[|b(" ++ l ++ "," ++ h ++ ")]") (.integer n)
        ((low ≤ n ∨ near low = near n) ∧ (n ≤ high ∨ near n = near high))) ∧
    ∀ m : Int64, IsNearest m.toInt (ofInt m.toInt) ∧
      (m.toInt.natAbs ≤ 2 ^ 53 → near m = m.toInt) := by
  refine ⟨⟨Rule.passesIff_at_most hl, (Rule.passesIff_max hl).congr near_le_iff⟩,
    ⟨Rule.passesIff_at_least hl, (Rule.passesIff_min hl).congr near_le_iff⟩,
    ⟨Action.completesIff_bw hbw hl hh, ?_⟩, fun m => ⟨isNearest_toInt m, near_eq⟩⟩
  exact (Rule.passesIff_between hl hh hle).congr (and_congr near_le_iff near_le_iff)

/-- 7 is more than 5, and between 5 and 10. -/
theorem limits_of_integers_seven :
    let en : Engine := { registry := .builtin, today := .earliest }
    Rule.PassesIff {} {} "[|mx(5)]" (.integer 7) False ∧
      Rule.PassesIff {} {} "[|mn(5)]" (.integer 7) True ∧
      Rule.PassesIff {} {} "[|b(5,+10)]" (.integer 7) True ∧
      Action.CompletesIff {} en "bw(5,+10)" (.integer 7) True := by
  intro en
  have hl : int64? "5".toList = some 5 := by decide +kernel
  have hh : int64? "+10".toList = some 10 := by decide +kernel
  have hscript : (en.registry.handler? .bw).map Handler.script = some Builtin.between := rfl
  obtain ⟨⟨-, hmax⟩, ⟨-, hmin⟩, ⟨hbw, hbetween⟩, hnear⟩ :=
    limits_of_integers {} {} hscript hl hh (by decide) 7
  have hne : near 7 ≠ near 5 := by
    rw [(hnear 5).2 (by decide), (hnear 7).2 (by decide)]
    exact fun heq => absurd (Int.cast_injective heq) (by decide)
  refine ⟨hmax.congr ?_, hmin.congr ?_, hbetween.congr ?_, hbw.congr ?_⟩
  · exact iff_false_intro (not_or_intro (by decide) hne)
  · exact iff_true_intro (.inl (by decide))
  · exact iff_true_intro ⟨.inl (by decide), .inl (by decide)⟩
  · exact iff_true_intro (by decide)

/-- `2 ^ 53 + 1` is greater than `2 ^ 53`, and passes this limit. -/
theorem limits_of_integers_rounded :
    let en : Engine := { registry := .builtin, today := .earliest }
    let n : Value := .integer 9007199254740993
    (Rule.PassesIff {} {} "[<=9007199254740992]" n False ∧
      Rule.PassesIff {} {} "[|mx(9007199254740992)]" n True) ∧
    (Rule.PassesIff {} {} "[>=9007199254740993]" (.integer 9007199254740992) False ∧
      Rule.PassesIff {} {} "[|mn(9007199254740993)]" (.integer 9007199254740992) True) ∧
    (Action.CompletesIff {} en "bw(9007199254740992,9007199254740992)" n False ∧
      Rule.PassesIff {} {} "[|b(9007199254740992,9007199254740992)]" n True) := by
  intro en n
  have hl : int64? "9007199254740992".toList = some 9007199254740992 := by decide +kernel
  have hh : int64? "9007199254740993".toList = some 9007199254740993 := by decide +kernel
  have hnear : near 9007199254740993 = near 9007199254740992 := by
    have hparts : parts (ofInt (Int64.toInt 9007199254740993)) =
        parts (ofInt (Int64.toInt 9007199254740992)) := by decide +kernel
    exact congrArg Parts.exact hparts
  refine ⟨⟨(Rule.passesIff_at_most hl).congr ?_, (Rule.passesIff_max hl).congr ?_⟩,
    ⟨(Rule.passesIff_at_least hh).congr ?_, (Rule.passesIff_min hh).congr ?_⟩,
    ⟨(Action.completesIff_bw rfl hl hl).congr ?_, (Rule.passesIff_between hl hl ?_).congr ?_⟩⟩
  · exact iff_false_intro (by decide)
  · exact iff_true_intro hnear.le
  · exact iff_false_intro (by decide)
  · exact iff_true_intro hnear.le
  · exact iff_false_intro (by decide)
  · exact Int64.le_refl _
  · exact iff_true_intro ⟨hnear.ge, hnear.le⟩

end Rulebook
