import Rulebook.Proofs.Nesting.Action
import Rulebook.Proofs.Step.Journal

/-!
# Running steps within the limit

A limit on nesting that was kept to when rules, instructions and steps were read is not met when
they run.  Steps are counted from the root on, in building as in running.
-/

namespace Rulebook

open RunError

/-! ## Instructions -/

namespace Instruction

/-- Every action fits where instructions run it. -/
def Fits (limit : Nat) (i : Instruction) : Prop := ∀ a ∈ i.actions, a.Fits limit 0

theorem fits_of_parse {config : Config} {text : String} {i : Instruction}
    (h : parse config text = .ok i) : i.Fits config.maxDepth := by
  intro a ha
  obtain ⟨b, cs, position, -, hread, heq⟩ := parse_ok h a ha
  have hb : b.Fits config.maxDepth 0 := Action.fits_of_read hread (Nat.zero_add _)
  rcases heq with rfl | rfl
  · exact hb
  · rw [Action.fits_iff] at hb ⊢
    exact hb

variable {en : Engine}

theorem run_ends (hreg : en.registry.Raises IsShallow) {i : Instruction} (h : i.Fits en.maxDepth) :
    Ends IsShallow (fun _ => True) (i.run en) := by
  have haction : ∀ a ∈ i.actions, Ends IsShallow (fun _ => True) (a.run en 0) :=
    fun a ha => Action.run_ends hreg a 0 (h a ha)
  cases i with
  | action a => exact haction a (by simp [actions])
  | test c onComplete onFail =>
    have hcondition := haction c (by cases onFail <;> simp [actions])
    have hcomplete := haction onComplete (by cases onFail <;> simp [actions])
    refine hcondition.bind fun r _ => ?_
    split
    · exact hcomplete
    · exact haction _ (by simp [actions])
    · exact ends_pure trivial

theorem runAll_ends (hreg : en.registry.Raises IsShallow) {is : List Instruction} {last : Result}
    (h : ∀ i ∈ is, i.Fits en.maxDepth) :
    Ends IsShallow (fun _ => True) (runAll en last is) := by
  induction is generalizing last with
  | nil => exact ends_pure trivial
  | cons i is ih =>
    refine (run_ends hreg (h i (by simp))).bind fun r _ => ?_
    dsimp only
    split
    · exact ends_pure trivial
    · refine ends_get.bind fun s _ => ?_
      split
      · exact ends_pure trivial
      · exact ih fun j hj => h j (by simp [hj])

end Instruction

/-! ## The journal -/

namespace StepM

variable {P : RunError → Prop}

theorem ofRun_ends {α : Type} {x : RunM α} (h : Ends P (fun _ => True) x) :
    Ends P (fun _ => True) (ofRun x) := fun j => h j.state

theorem entered_ends {name : String} {x : StepM Result} (h : Ends P (fun _ => True) x) :
    Ends P (fun _ => True) (entered name x) := by
  rw [ends_iff] at h ⊢
  intro j e he
  rw [outcome_entered] at he
  refine h (j.enter name) e ?_
  generalize outcome x (j.enter name) = r at he
  obtain ⟨e' | a, t⟩ := r <;> exact he

theorem ends_isHalted : Ends P (fun _ => True) isHalted := fun _ => trivial

end StepM

/-! ## Steps -/

namespace Step

mutual

/-- Steps stay within the limit when the root is at this depth, and so do their instructions. -/
def Fits (limit : Nat) : Step → Nat → Prop
  | ⟨_, _, instructions, _, children⟩, depth =>
    depth ≤ limit ∧ (∀ i ∈ instructions, i.Fits limit) ∧ ChildrenFit limit children (depth + 1)

def ChildrenFit (limit : Nat) : List Step → Nat → Prop
  | [], _ => True
  | s :: ss, depth => Fits limit s depth ∧ ChildrenFit limit ss depth

end

theorem readInstructions_fit {config : Config} {name : String} {texts : List String}
    {is : List Instruction} (h : readInstructions config name texts = .ok is) :
    ∀ i ∈ is, i.Fits config.maxDepth := by
  induction texts generalizing is with
  | nil =>
    cases h
    intro i hi
    cases hi
  | cons text texts ih =>
    rw [readInstructions] at h
    split at h
    · cases h
    · next i hi =>
      obtain ⟨is', his', h⟩ := bind_ok_iff.1 h
      cases h
      intro j hj
      rcases List.mem_cons.1 hj with rfl | hj
      · exact Instruction.fits_of_parse hi
      · exact ih his' j hj

mutual

theorem fits_of_buildAt {config : Config} : ∀ (d : StepDefinition) (depth : Nat) (s : Step),
    buildAt config d depth = .ok s → s.Fits config.maxDepth depth
  | ⟨name, instruction, instructions, order, cascade, children⟩, depth, s, h => by
    rw [buildAt] at h
    split at h
    · cases h
    · next hdepth =>
      obtain ⟨is, his, h⟩ := bind_ok_iff.1 h
      obtain ⟨ss, hss, h⟩ := bind_ok_iff.1 h
      cases h
      exact ⟨by omega, readInstructions_fit his, childrenFit_of_build children (depth + 1) ss hss⟩

theorem childrenFit_of_build {config : Config} : ∀ (ds : List StepDefinition) (depth : Nat)
    (ss : List Step), buildChildren config ds depth = .ok ss →
      ChildrenFit config.maxDepth ss depth
  | [], depth, ss, h => by
    cases h
    trivial
  | d :: ds, depth, ss, h => by
    rw [buildChildren] at h
    obtain ⟨s, hs, h⟩ := bind_ok_iff.1 h
    obtain ⟨ss', hss', h⟩ := bind_ok_iff.1 h
    cases h
    exact ⟨fits_of_buildAt d depth s hs, childrenFit_of_build ds depth ss' hss'⟩

end

/-! ## Running -/

theorem runOrdered_ends {xs : List (StepM Result)}
    (h : ∀ x ∈ xs, Ends IsShallow (fun _ => True) x) :
    Ends IsShallow (fun _ => True) (runOrdered xs) := by
  induction xs with
  | nil => exact ends_pure trivial
  | cons x xs ih =>
    refine StepM.ends_isHalted.bind fun halted _ => ?_
    split
    · exact ends_pure trivial
    · refine (h x (by simp)).bind fun r _ => ?_
      exact (ih fun y hy => h y (by simp [hy])).bind fun _ _ => ends_pure trivial

mutual

theorem runAt_ends {en : Engine} (hreg : en.registry.Raises IsShallow) :
    ∀ (s : Step) (depth : Nat), s.Fits en.maxDepth depth →
      Ends IsShallow (fun _ => True) (s.runAt en depth)
  | ⟨name, order, instructions, cascade, children⟩, depth, h => by
    obtain ⟨hdepth, hinstructions, hchildren⟩ := h
    rw [runAt, if_neg (by omega)]
    refine StepM.entered_ends ?_
    refine (StepM.ofRun_ends (Instruction.runAll_ends hreg hinstructions)).bind fun own _ => ?_
    split
    · exact ends_pure trivial
    · refine StepM.ends_isHalted.bind fun halted _ => ?_
      split
      · exact ends_pure trivial
      · refine (runOrdered_ends fun x hx => ?_).bind fun kinds _ => ends_pure trivial
        -- the order of the children does not matter
        obtain ⟨run, hrun, rfl⟩ := List.mem_map.1 hx
        exact childRuns_ends hreg children (depth + 1) hchildren run
          ((sortOn_perm _ _).mem_iff.1 hrun)

theorem childRuns_ends {en : Engine} (hreg : en.registry.Raises IsShallow) :
    ∀ (ss : List Step) (depth : Nat), ChildrenFit en.maxDepth ss depth →
      ∀ x ∈ childRuns en ss depth, Ends IsShallow (fun _ => True) x.2
  | [], depth, _, x, hx => by simp [childRuns] at hx
  | ⟨name, order, instructions, cascade, children⟩ :: ss, depth, h, x, hx => by
    rw [childRuns, List.mem_cons] at hx
    rcases hx with rfl | hx
    · exact runAt_ends hreg _ depth h.1
    · exact childRuns_ends hreg ss depth h.2 x hx

end

end Step

/-! ## The limit -/

/-- A limit kept to in reading is not met in running: by the rules compiled under a configuration,
whatever the value; by the actions of the instructions read under it, whatever the target; and by
the steps built under it.  Handlers may raise any error but those of the limit, which they only
pass on. -/
theorem never_tooDeep (config : Config) :
    (∀ text r, Rule.compile config text = .ok r →
      ∀ ev : Evaluator, ev.config = config →
        ∀ v limit, r.evaluate ev v ≠ .error (.tooDeep limit)) ∧
    ∀ en : Engine, en.evaluator.config = config → en.registry.Raises IsShallow →
      (∀ text i, Instruction.parse config text = .ok i →
        ∀ a ∈ i.actions, ∀ s limit,
          (outcome (a.run en 0) s).1 ≠ .error (.tooDeep limit) ∧
            (outcome (a.run en 0) s).1 ≠ .error (.rule (.tooDeep limit))) ∧
      ∀ d step, Step.build config d = .ok step →
        ∀ j limit, (outcome (step.run en) j).1 ≠ .error (.tooDeep limit) ∧
          (outcome (step.run en) j).1 ≠ .error (.rule (.tooDeep limit)) := by
  have hshallow : ∀ {σ α : Type} {x : ExceptT RunError (StateM σ) α},
      Ends IsShallow (fun _ => True) x → ∀ s limit,
        (outcome x s).1 ≠ .error (.tooDeep limit) ∧
          (outcome x s).1 ≠ .error (.rule (.tooDeep limit)) := by
    intro σ α x hx s limit
    refine ⟨fun he => ends_iff.1 hx s _ he, fun he => ?_⟩
    exact ends_iff.1 hx s _ he limit rfl
  refine ⟨?_, ?_⟩
  · rintro text r hr ev rfl v limit he
    exact Rule.evaluate_error (height_le_of_compile hr) he limit rfl
  · rintro en rfl hreg
    refine ⟨?_, ?_⟩
    · intro text i hi a ha
      exact hshallow (Action.run_ends hreg a 0 (Instruction.fits_of_parse hi a ha))
    · intro d step hd
      exact hshallow (Step.runAt_ends hreg step 0 (Step.fits_of_buildAt d 0 step hd))

theorem never_tooDeep_at_one :
    (∃ r, Rule.compile { maxDepth := 1 } "([5]||[6])&&[7]" = .ok r ∧
      ∀ v limit, r.evaluate { config := { maxDepth := 1 } } v ≠ .error (.tooDeep limit)) ∧
    (∃ i, Instruction.parse { maxDepth := 1 } "CHECK(in(5))=>END" = .ok i ∧
      ∀ a ∈ i.actions, ∀ s limit,
        (outcome (a.run ⟨.builtin, { config := { maxDepth := 1 } }, .earliest⟩ 0) s).1 ≠
          .error (.tooDeep limit)) ∧
    ∃ step, Step.build { maxDepth := 1 }
        { name := "root"
          children := [{ name := "leaf", instructions := ["CHECK(in(5))=>END"] }] } = .ok step ∧
      ∀ j limit, (outcome (step.run ⟨.builtin, { config := { maxDepth := 1 } }, .earliest⟩) j).1 ≠
        .error (.tooDeep limit) := by
  obtain ⟨hrules, hruns⟩ := never_tooDeep { maxDepth := 1 }
  obtain ⟨hactions, hsteps⟩ := hruns ⟨.builtin, { config := { maxDepth := 1 } }, .earliest⟩ rfl
    (Registry.builtin_raises admitsFaults_isShallow)
  refine ⟨?_, ?_, ?_⟩
  · obtain ⟨r, hr⟩ := exists_ok_of_isOk (x := Rule.compile { maxDepth := 1 } "([5]||[6])&&[7]")
      (by decide +kernel)
    exact ⟨r, hr, hrules _ r hr _ rfl⟩
  · obtain ⟨i, hi⟩ := exists_ok_of_isOk
      (x := Instruction.parse { maxDepth := 1 } "CHECK(in(5))=>END") (by decide +kernel)
    exact ⟨i, hi, fun a ha s limit => (hactions _ i hi a ha s limit).1⟩
  · obtain ⟨step, hstep⟩ := exists_ok_of_isOk (x := Step.build { maxDepth := 1 }
      { name := "root", children := [{ name := "leaf", instructions := ["CHECK(in(5))=>END"] }] })
      (by decide +kernel)
    exact ⟨step, hstep, fun j limit => (hsteps _ step hstep j limit).1⟩

end Rulebook
