import Rulebook.Proofs.Evaluation.Unforced

/-!
# Errors of tests

The check of a value ends in an error in four ways:

    wrong kind    the modifier does not apply to values of this kind
    no lookup     a table is asked, and there is none
    lookup        the table that is asked has an error of its own
    unordered     a number is forced into bounds that are not in order

The test of a rule ends in an error of a check of one of its brackets, or at the limit on nesting.
A test at a depth of nodes is refused when the limit is below that depth, so a rule of height `h`
tested at depth `d` is not refused while `d + h` is at most the limit plus one.
-/

namespace Rulebook

/-! ## Modifiers -/

namespace Modifier

variable {m : Modifier} {s : CheckSetting} {v : Value} {e : EvalError}

/-- The errors in which the check of a value ends. -/
inductive Errs (s : CheckSetting) (v : Value) : Modifier → EvalError → Prop
  | wrongKind (m : Modifier) : Errs s v m (.wrongKind m.code v.kind)
  | noLookup {columns : List Column} : s.lookup = none →
      Errs s v (.inTable columns) (.noLookup .inTable)
  | lookup {columns : List Column} {l : Lookup} (reason : String) : s.lookup = some l →
      Errs s v (.inTable columns) (.lookup reason)
  | unordered {low high : Value} : s.force = true → isDateRange low = false →
      ¬(numericBounds low high).1 ≤ (numericBounds low high).2 →
        Errs s v (.between low high) .unordered

theorem foundIn_error {l : Lookup} {cs : List Column} (h : foundIn l v cs = .error e) :
    ∃ reason, e = .lookup reason := by
  induction cs with
  | nil => cases h
  | cons c cs ih =>
    unfold foundIn at h
    split at h
    · cases h
      exact ⟨_, rfl⟩
    · cases h
    · exact ih h

theorem errs_of_checkTables {columns : List Column}
    (h : checkTables s.lookup columns v = .error e) : Errs s v (.inTable columns) e := by
  unfold checkTables at h
  split at h
  · next hnone =>
    cases h
    exact .noLookup hnone
  · next l hl =>
    split at h
    · next hfound =>
      cases h
      obtain ⟨reason, rfl⟩ := foundIn_error hfound
      exact .lookup reason hl
    · cases h
    · cases h

theorem checkRounding_error {code : ModifierCode} {digits : Nat} {up force : Bool}
    (h : checkRounding code digits up force v = .error e) : e = .wrongKind code v.kind := by
  unfold checkRounding at h
  split at h
  · next hround =>
    cases h
    unfold roundable at hround
    split at hround
    · cases hround
    · cases hround
    · split at hround <;> cases hround
      rfl
    · cases hround
      rfl
  · cases h
  · cases h

theorem measure_error (h : measure v = .error e) : e = .wrongKind .between v.kind := by
  cases v with
  | text | list | integer | decimal => cases h
  | null | bool | date | object =>
    cases h
    rfl

theorem errs_of_checkRange {low high : Value} (h : checkRange low high s.force v = .error e) :
    Errs s v (.between low high) e := by
  unfold checkRange at h
  dsimp only at h
  split at h
  · split at h
    · cases h
      exact .wrongKind _
    · cases h
  · next hdate =>
    split at h
    · next hmeasure =>
      cases h
      rw [measure_error hmeasure]
      exact .wrongKind (.between low high)
    · split at h
      · cases h
      · split at h
        · next hforce =>
          rw [Bool.and_eq_true] at hforce
          split at h
          · cases h
          · next hnone =>
            cases h
            refine .unordered hforce.1 (Bool.eq_false_iff.2 hdate) fun hle => ?_
            rw [clamp?, if_pos hle] at hnone
            cases hnone
        · cases h

/-- **A check ends in no other errors.** -/
theorem errs_of_check (h : m.check s v = .error e) : Errs s v m e := by
  unfold check at h
  split at h
  · cases h
  cases m with
  | upper | lower | email =>
    cases v with
    | text => cases h
    | null | bool | integer | decimal | date | list | object =>
      cases h
      exact .wrongKind _
  | ignoreCase | oneOf | required => cases h
  | max | min =>
    cases v with
    | text | list | integer | decimal => cases h
    | null | bool | date | object =>
      cases h
      exact .wrongKind _
  | inTable => exact errs_of_checkTables h
  | roundUp digits =>
    rw [checkRounding_error h]
    exact .wrongKind (.roundUp digits)
  | roundDown digits =>
    rw [checkRounding_error h]
    exact .wrongKind (.roundDown digits)
  | between => exact errs_of_checkRange h

end Modifier

/-! ## Brackets -/

variable {lookup : Option Lookup} {P : EvalError → Prop}

theorem ends_value : Ends P (fun _ => True) TestM.value :=
  ends_get.bind fun _ _ => ends_pure trivial

theorem ends_fail {kind : FailureKind} {rule detail : String} :
    Ends P (fun _ => True) (TestM.fail kind rule detail) :=
  ends_modify.bind fun _ _ => ends_pure trivial

theorem ends_quietIfPassed {x : TestM Bool} (h : Ends P (fun _ => True) x) :
    Ends P (fun _ => True) (TestM.quietIfPassed x) := by
  refine ends_get.bind fun s _ => h.bind fun passed _ => ?_
  cases passed with
  | false => exact ends_pure trivial
  | true => exact ends_modify.bind fun _ _ => ends_pure trivial

namespace Bracket

variable {b : Bracket}

theorem testOperand_ends : Ends P (fun _ => True) b.testOperand := by
  refine ends_value.bind fun v _ => ?_
  split
  · exact ends_pure trivial
  · split
    · exact ends_pure trivial
    · exact ends_fail

/-- The checks of a bracket end in no other errors than these. -/
def ErrsIn (P : EvalError → Prop) (b : Bracket) : Prop :=
  ∀ m ∈ b.modifiers, ∀ s v e, m.Errs s v e → P e

theorem testModifier_ends {m : Modifier} (h : ∀ s v e, m.Errs s v e → P e) :
    Ends P (fun _ => True) (b.testModifier lookup m) := by
  refine ends_value.bind fun v _ => ?_
  split
  · next he => exact ends_throw (h _ _ _ (Modifier.errs_of_check he))
  · exact ends_pure trivial
  · exact ends_modify.bind fun _ _ => ends_pure trivial
  · exact ends_fail

theorem testModifiers_ends {ms : List Modifier}
    (h : ∀ m ∈ ms, ∀ s v e, m.Errs s v e → P e) :
    Ends P (fun _ => True) (b.testModifiers lookup ms) := by
  induction ms with
  | nil => exact ends_pure trivial
  | cons m ms ih =>
    have hms := ih fun m' hm' => h m' (List.mem_cons_of_mem m hm')
    exact (testModifier_ends (h m List.mem_cons_self)).bind fun _ _ =>
      hms.bind fun _ _ => ends_pure trivial

theorem test_ends (h : b.ErrsIn P) : Ends P (fun _ => True) (b.test lookup) :=
  testOperand_ends.bind fun _ _ => (testModifiers_ends h).bind fun _ _ => ends_pure trivial

end Bracket

/-! ## Rules -/

namespace Rule

open Shape

/-- The limit is not met from this depth, or meeting it is among the errors. -/
def Allows (P : EvalError → Prop) (ev : Evaluator) (depth : Nat) : Prop :=
  P (.tooDeep ev.config.maxDepth) ∨ depth ≤ ev.config.maxDepth + 1

mutual

theorem test_ends (ev : Evaluator) : ∀ (r : Rule) (depth : Nat), (∀ b ∈ r.leaves, b.ErrsIn P) →
    Allows P ev (depth + r.shape.height) → Ends P (fun _ => True) (test ev r depth)
  | .bracket b, _, hleaves, _ => Bracket.test_ends (hleaves b (List.mem_singleton_self b))
  | .node _ _ groups, depth, hleaves, h => by
    rw [shape, Shape.height] at h
    rw [test]
    split
    · exact ends_throw (h.resolve_right (by omega))
    · exact ends_quietIfPassed (testGroups_ends ev groups (depth + 1) hleaves
        (h.imp_right fun h => by omega))

theorem testGroups_ends (ev : Evaluator) : ∀ (gs : List (GroupOf Rule)) (depth : Nat),
    (∀ b ∈ groupsLeaves gs, b.ErrsIn P) → Allows P ev (depth + groupsHeight (groupShapes gs)) →
      Ends P (fun _ => True) (testGroups ev gs depth)
  | [], _, _, _ => ends_pure trivial
  | g :: gs, depth, hleaves, h => by
    rw [groupsLeaves] at hleaves
    rw [groupShapes, groupsHeight] at h
    rw [testGroups]
    have hgroup := testGroup_ends ev g depth (fun b hb => hleaves b (by simp [hb]))
      (h.imp_right fun h => by omega)
    have hgroups := testGroups_ends ev gs depth (fun b hb => hleaves b (by simp [hb]))
      (h.imp_right fun h => by omega)
    exact hgroup.bind fun _ _ => hgroups.bind fun _ _ => ends_pure trivial

theorem testGroup_ends (ev : Evaluator) : ∀ (g : GroupOf Rule) (depth : Nat),
    (∀ b ∈ groupLeaves g, b.ErrsIn P) → Allows P ev (depth + groupHeight (groupShape g)) →
      Ends P (fun _ => True) (testGroup ev g depth)
  | ⟨join, members⟩, depth, hleaves, h => by
    rw [groupShape, groupHeight] at h
    rw [testGroup]
    have hmembers := testMembers_ends ev members depth hleaves h
    exact ends_quietIfPassed (hmembers.bind fun _ _ => ends_pure trivial)

theorem testMembers_ends (ev : Evaluator) : ∀ (rs : List Rule) (depth : Nat),
    (∀ b ∈ membersLeaves rs, b.ErrsIn P) → Allows P ev (depth + membersHeight (memberShapes rs)) →
      Ends P (fun _ => True) (testMembers ev rs depth)
  | [], _, _, _ => ends_pure trivial
  | r :: rs, depth, hleaves, h => by
    rw [membersLeaves] at hleaves
    rw [memberShapes, membersHeight] at h
    rw [testMembers]
    have hmember := test_ends ev r depth (fun b hb => hleaves b (by simp [hb]))
      (h.imp_right fun h => by omega)
    have hmembers := testMembers_ends ev rs depth (fun b hb => hleaves b (by simp [hb]))
      (h.imp_right fun h => by omega)
    exact hmember.bind fun _ _ => hmembers.bind fun _ _ => ends_pure trivial

end

/-- An evaluation ends in no other errors than the checks of its brackets, and that of the limit
where it may be met. -/
theorem evaluate_errsIn {ev : Evaluator} {r : Rule} {v : Value} {e : EvalError}
    (hleaves : ∀ b ∈ r.leaves, b.ErrsIn P) (hdepth : Allows P ev r.height)
    (h : r.evaluate ev v = .error e) : P e := by
  have hends := test_ends ev r 0 hleaves (by rwa [Nat.zero_add])
  exact ends_iff.1 hends _ e (evaluate_eq_error_iff.1 h)

end Rule

/-! ## The limit on nesting -/

/-- An error other than that of the limit on nesting. -/
def EvalError.IsShallow (e : EvalError) : Prop := ∀ limit, e ≠ .tooDeep limit

theorem Modifier.Errs.isShallow {m : Modifier} {s : CheckSetting} {v : Value} {e : EvalError}
    (h : Errs s v m e) : e.IsShallow := by
  intro limit hlimit
  cases h <;> cases hlimit

/-- A rule of bounded height is evaluated without meeting the limit. -/
theorem Rule.evaluate_error {ev : Evaluator} {r : Rule} {v : Value} {e : EvalError}
    (hheight : r.height ≤ ev.config.maxDepth + 1) (h : r.evaluate ev v = .error e) :
    e.IsShallow :=
  evaluate_errsIn (fun _ _ _ _ _ _ _ herrs => herrs.isShallow) (.inr hheight) h

end Rulebook
