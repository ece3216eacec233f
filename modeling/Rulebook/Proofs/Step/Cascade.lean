import Rulebook.Proofs.Step.Course
import Rulebook.Run.Builtin

/-!
# The cascade law

**Main result** `Step.run_cascade`: when a run of a step tree returns, each step that was entered in
it came to what its instructions and its children say (`Course.Cascades`):

    own                                    without children
    own, NoAction taken for Complete       when that is not Complete, or the run is halted
    the cascade of the children's kinds    otherwise, with the value of own
-/

namespace Rulebook

namespace Course

/-- The cascade law for one step. -/
def Cascades (c : Course) : Prop :=
  ∃ rs r, c.turns.mapM Turn.result = .ok rs ∧ c.result = .ok r ∧
    let own := Instruction.ownResult rs
    if c.step.children = [] then r = own ∧ c.inner = []
    else
      let own := if own.kind = .noAction then .complete else own
      if own.kind ≠ .complete ∨ c.handed.halted = true then r = own ∧ c.inner = []
      else
        c.inner.map Course.step <+: sortOn Step.order c.step.children ∧
          r.kind = c.step.cascade.resolve (c.inner.map fun d => d.recorded.kind) ∧
          r.value = own.value

end Course

namespace Step

variable {en : Engine}

/-- The steps that were entered are the first of those that were to run. -/
theorem RanAll.steps_prefix {depth : Nat} {t u : RunState} {ss : List Step} {vs : List Visit}
    {e? : Option RunError} (h : RanAll en depth t ss vs e? u) : vs.map Visit.step <+: ss := by
  induction vs generalizing t ss with
  | nil => exact List.nil_prefix
  | cons v vs ih =>
    rw [List.map_cons]
    cases h with
    | raised _ _ hv _ =>
      rw [hv.step_eq]
      exact List.cons_prefix_cons.2 ⟨rfl, List.nil_prefix⟩
    | next _ _ hv _ hvs =>
      rw [hv.step_eq]
      exact List.cons_prefix_cons.2 ⟨rfl, ih hvs⟩

/-- Steps in a row that raise no error all return. -/
theorem RanAll.exists_ok {depth : Nat} {t u : RunState} {ss : List Step} {vs : List Visit}
    (h : RanAll en depth t ss vs none u) : ∀ v ∈ vs, ∃ r, v.result = .ok r := by
  induction vs generalizing t ss with
  | nil => exact fun _ h => absurd h List.not_mem_nil
  | cons v vs ih =>
    cases h with
    | next _ _ _ hresult hvs => exact List.forall_mem_cons.2 ⟨⟨_, hresult⟩, ih hvs⟩

/-- A step that returned passed on no error. -/
theorem Ran.exists_ok {depth : Nat} {t u : RunState} {s : Step} {v : Visit} {r : Result}
    (h : Ran en depth t s v u) (hv : v.result = .ok r) : ∀ w ∈ v.inner, ∃ r, w.result = .ok r := by
  cases h with
  | raised | childless | stopped => exact fun _ h => absurd h List.not_mem_nil
  | cascaded _ _ _ _ hall => exact hall.exists_ok
  | passedOn => cases hv

theorem combine_kind (cascade : Cascade) (own : Result) (kinds : List ResultKind) :
    (combine cascade own kinds).kind = cascade.resolve kinds := by
  unfold combine
  split
  · next h => exact h.symm
  · rfl

theorem combine_value (cascade : Cascade) (own : Result) (kinds : List ResultKind) :
    (combine cascade own kinds).value = own.value := by
  unfold combine
  split <;> rfl

/-- The law at one step that returned. -/
theorem Went.cascades {depth : Nat} {t u : RunState} {c : Course} {r : Result}
    (h : Went en depth t c u) (hc : c.result = .ok r) : c.Cascades := by
  cases h with
  | @of _ _ s handed cs x _ hran hhanded _ =>
    obtain rfl : x = .ok r := hc
    generalize hvs : Course.visits cs = vs at hran
    cases hran with
    | childless hown hchildren =>
      obtain ⟨rs, hrs, rfl, -⟩ := Instruction.exists_results hown
      refine ⟨rs, _, hrs, rfl, ?_⟩
      rw [if_pos hchildren]
      exact ⟨rfl, Course.visits_eq_nil hvs⟩
    | stopped hown hchildren hstop =>
      obtain ⟨rs, hrs, rfl, hafter⟩ := Instruction.exists_results hown
      rw [← hafter, ← hhanded] at hstop
      refine ⟨rs, _, hrs, rfl, ?_⟩
      rw [if_neg hchildren]
      have hstop' :
          (handOver (Instruction.ownResult rs)).kind ≠ .complete ∨ handed.halted = true := by
        simpa [Result.isComplete] using hstop
      exact (if_pos hstop').mpr ⟨rfl, Course.visits_eq_nil hvs⟩
    | cascaded hown hchildren hcomplete hgoing hall =>
      obtain ⟨rs, hrs, rfl, hafter⟩ := Instruction.exists_results hown
      rw [← hafter, ← hhanded] at hgoing
      refine ⟨rs, _, hrs, rfl, ?_⟩
      rw [if_neg hchildren]
      have hgo :
          ¬((handOver (Instruction.ownResult rs)).kind ≠ .complete ∨ handed.halted = true) := by
        simpa [Result.isComplete, hgoing] using hcomplete
      refine (if_neg hgo).mpr ⟨?_, ?_, combine_value ..⟩
      · rw [← Course.steps_visits, hvs]
        exact hall.steps_prefix
      · rw [combine_kind, ← hvs, Course.kinds_visits]

mutual

theorem Went.all_cascade {depth : Nat} {t u : RunState} :
    {c : Course} → Went en depth t c u → {r : Result} → c.result = .ok r → ∀ d ∈ c.all, d.Cascades
  | _, h@(.of hran _ hcs), _, hc => List.forall_mem_cons.2
    ⟨h.cascades hc, hcs.all_cascade (hran.exists_ok hc)⟩

theorem WentAll.all_cascade {depth : Nat} {t u : RunState} : {cs : List Course} →
    WentAll en depth t cs u → (∀ v ∈ Course.visits cs, ∃ r, v.result = .ok r) →
      ∀ d ∈ Course.allInner cs, d.Cascades
  | _, .nil, _ => fun _ h => absurd h List.not_mem_nil
  | _, .cons _ hc hcs, hok => by
    rw [Course.visits, List.forall_mem_cons, Course.visit_result] at hok
    obtain ⟨⟨r, hr⟩, hok⟩ := hok
    exact List.forall_mem_append.2 ⟨hc.all_cascade hr, hcs.all_cascade hok⟩

end

/-- **The cascade law holds at every step of a run that returns.** -/
theorem run_cascade (en : Engine) (s : Step) (j : Journal) {r : Result}
    (hr : (outcome (s.run en) j).1 = .ok r) :
    ∃ c, Goes en s j c ∧ ∀ d ∈ c.all, d.Cascades := by
  obtain ⟨c, hc⟩ := exists_goes en s j
  exact ⟨c, hc, hc.went.all_cascade (hc.result.trans hr)⟩

/-- A step without an applicable case hands over to its children, of which the second fails and
runs first. -/
theorem run_cascade_switch :
    let en : Engine := { registry := .builtin, today := .earliest }
    let set : Step :=
      { name := "set", order := 2, instructions := [.action (.of .set [.literal (.integer 1)])] }
    let test : Step :=
      { name := "test", order := 1, instructions := [.action (.of .oneOf [.literal (.text "a")])] }
    let case : Instruction :=
      .action (.of .switch [.literal (.text "a"), .action (.of .stop [])])
    let s : Step := { name := "step", instructions := [case], children := [set, test] }
    let j : Journal := { state := { target := .text "b" } }
    ∃ r, (outcome (s.run en) j).1 = .ok r ∧ r.kind = .fail ∧
      ∃ c, Goes en s j c ∧ ∀ d ∈ c.all, d.Cascades := by
  intro en set test case s j
  have hkind : (outcome (s.run en) j).1.toOption.map Result.kind = some .fail := by decide +kernel
  obtain ⟨r, hr, hfail⟩ := Option.map_eq_some_iff.1 hkind
  exact ⟨r, eq_ok_of_toOption hr, hfail, run_cascade en s j (eq_ok_of_toOption hr)⟩

end Step

end Rulebook
