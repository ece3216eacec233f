import Rulebook.Proofs.Step.Negation
import Rulebook.Step.Run

/-!
# The algebra of cascades

Each policy asks one question about which of the two counted kinds occur at all (`Cascade.Asks`):

    anyOneFails, allMustComplete     no Fail
    anyOneCompletes                  a Complete, where there is a Fail
    allMustFail                      no Complete

So the order of the kinds, how often they occur and the kinds that are not counted make no
difference, two of the policies are one, and the two others come from it by flipping the kinds and
by negation (`resolve_algebra`).
-/

namespace Rulebook.Cascade

variable {c c' : Cascade} {k : ResultKind} {ks ls : List ResultKind}

/-! ## What is counted -/

/-- Complete and Fail are the kinds that count. -/
def counted (ks : List ResultKind) : List ResultKind :=
  ks.filter fun k => k == .complete || k == .fail

theorem mem_counted : k ∈ counted ks ↔ k ∈ ks ∧ (k = .complete ∨ k = .fail) := by
  simp [counted]

theorem counted_eq_nil_iff : counted ks = [] ↔ .complete ∉ ks ∧ .fail ∉ ks := by
  rw [List.eq_nil_iff_forall_not_mem]
  constructor
  · intro hnone
    exact ⟨fun h => hnone _ (mem_counted.2 ⟨h, .inl rfl⟩),
      fun h => hnone _ (mem_counted.2 ⟨h, .inr rfl⟩)⟩
  · rintro ⟨hcomplete, hfail⟩ k hk
    obtain ⟨hk, rfl | rfl⟩ := mem_counted.1 hk
    · exact hcomplete hk
    · exact hfail hk

/-- All that is counted is of one kind when the other does not occur. -/
theorem all_counted_complete_iff : (∀ k ∈ counted ks, k = .complete) ↔ .fail ∉ ks := by
  constructor
  · intro hall hfail
    cases hall _ (mem_counted.2 ⟨hfail, .inr rfl⟩)
  · intro hfail k hk
    obtain ⟨hk, rfl | rfl⟩ := mem_counted.1 hk
    · rfl
    · exact absurd hk hfail

theorem all_counted_fail_iff : (∀ k ∈ counted ks, k = .fail) ↔ .complete ∉ ks := by
  constructor
  · intro hall hcomplete
    cases hall _ (mem_counted.2 ⟨hcomplete, .inl rfl⟩)
  · intro hcomplete k hk
    obtain ⟨hk, rfl | rfl⟩ := mem_counted.1 hk
    · exact absurd hk hcomplete
    · rfl

/-! ## What a policy asks -/

/-- What a policy asks of the kinds of the children. -/
def Asks : Cascade → List ResultKind → Prop
  | .anyOneFails, ks | .allMustComplete, ks => .fail ∉ ks
  | .anyOneCompletes, ks => .fail ∈ ks → .complete ∈ ks
  | .allMustFail, ks => .complete ∉ ks

/-- A parent completes when its children are as its policy asks. -/
theorem resolve_eq_complete_iff : c.resolve ks = .complete ↔ c.Asks ks := by
  have hresolve : ∀ passed : Bool,
      (if (counted ks).isEmpty || passed then ResultKind.complete else .fail) = .complete ↔
        (.complete ∉ ks ∧ .fail ∉ ks) ∨ passed = true := by
    intro passed
    rw [← counted_eq_nil_iff, ← List.isEmpty_iff, ← Bool.or_eq_true]
    split <;> simp_all
  have hany : ∀ k, k = .complete ∨ k = .fail → ((counted ks).any (· == k) = true ↔ k ∈ ks) := by
    intro k hk
    rw [List.any_beq', List.contains_iff_mem, mem_counted, and_iff_left hk]
  cases c with
  | anyOneFails =>
    have hpassed : (!(counted ks).any (· == .fail)) = true ↔ .fail ∉ ks := by
      rw [Bool.not_eq_true', ← Bool.not_eq_true, hany _ (.inr rfl)]
    exact ((hresolve _).trans (or_congr_right hpassed)).trans (or_iff_right_of_imp And.right)
  | anyOneCompletes =>
    refine ((hresolve _).trans (or_congr_right (hany _ (.inl rfl)))).trans ?_
    constructor
    · rintro (⟨-, hnone⟩ | hcomplete) hfail
      · exact absurd hfail hnone
      · exact hcomplete
    · intro hasks
      by_cases hcomplete : .complete ∈ ks
      · exact .inr hcomplete
      · exact .inl ⟨hcomplete, fun hfail => hcomplete (hasks hfail)⟩
  | allMustComplete =>
    have hpassed : (counted ks).all (· == .complete) = true ↔ .fail ∉ ks := by
      simp only [List.all_eq_true, beq_iff_eq, all_counted_complete_iff]
    exact ((hresolve _).trans (or_congr_right hpassed)).trans (or_iff_right_of_imp And.right)
  | allMustFail =>
    have hpassed : (counted ks).all (· == .fail) = true ↔ .complete ∉ ks := by
      simp only [List.all_eq_true, beq_iff_eq, all_counted_fail_iff]
    exact ((hresolve _).trans (or_congr_right hpassed)).trans (or_iff_right_of_imp And.left)

theorem resolve_eq_complete_or_fail (c : Cascade) (ks : List ResultKind) :
    c.resolve ks = .complete ∨ c.resolve ks = .fail := by
  unfold resolve
  exact (Decidable.em _).imp (fun h => if_pos h) (fun h => if_neg h)

theorem resolve_eq_fail_iff : c.resolve ks = .fail ↔ ¬c.Asks ks := by
  rw [← resolve_eq_complete_iff]
  rcases resolve_eq_complete_or_fail c ks with h | h <;> simp [h]

/-- Policies that ask the same give the same result. -/
theorem resolve_congr (h : c.Asks ks ↔ c'.Asks ls) : c.resolve ks = c'.resolve ls := by
  rcases resolve_eq_complete_or_fail c' ls with hc | hc
  · rw [hc, resolve_eq_complete_iff, h, ← resolve_eq_complete_iff, hc]
  · rw [hc, resolve_eq_fail_iff, h, ← resolve_eq_fail_iff, hc]

/-- A policy asks only whether Complete and Fail occur. -/
theorem asks_congr (hcomplete : .complete ∈ ks ↔ .complete ∈ ls) (hfail : .fail ∈ ks ↔ .fail ∈ ls) :
    c.Asks ks ↔ c.Asks ls := by
  cases c with
  | anyOneFails | allMustComplete => exact not_congr hfail
  | anyOneCompletes => exact imp_congr hfail hcomplete
  | allMustFail => exact not_congr hcomplete

theorem fail_mem_map_flipped : .fail ∈ ks.map ResultKind.flipped ↔ .complete ∈ ks := by
  rw [List.mem_map]
  constructor
  · rintro ⟨k, hk, hflipped⟩
    cases k <;> first | exact hk | cases hflipped
  · exact fun h => ⟨.complete, h, rfl⟩

/-- **The algebra of the policies.**  A result is the same under permutation and whatever is
inserted besides Complete and Fail; to fail when any child fails is to complete when all complete;
to complete when all fail is that on the kinds flipped; and where something is counted, one child
completes exactly when it is not so that all fail. -/
theorem resolve_algebra (ks : List ResultKind) :
    (∀ (c : Cascade) (ls : List ResultKind), ks.Perm ls → c.resolve ks = c.resolve ls) ∧
    (∀ (c : Cascade) (k : ResultKind) (ls : List ResultKind), k ≠ .complete → k ≠ .fail →
      c.resolve (ks ++ k :: ls) = c.resolve (ks ++ ls)) ∧
    anyOneFails.resolve ks = allMustComplete.resolve ks ∧
    allMustFail.resolve ks = allMustComplete.resolve (ks.map ResultKind.flipped) ∧
    (.complete ∈ ks ∨ .fail ∈ ks →
      (anyOneCompletes.resolve ks = .complete ↔ allMustFail.resolve ks = .fail)) := by
  refine ⟨fun c ls hperm => ?_, fun c k ls hcomplete hfail => ?_, ?_, ?_, fun hcounted => ?_⟩
  · exact resolve_congr (asks_congr hperm.mem_iff hperm.mem_iff)
  · refine resolve_congr (asks_congr ?_ ?_)
    · simp [hcomplete.symm]
    · simp [hfail.symm]
  · exact resolve_congr Iff.rfl
  · exact resolve_congr (not_congr fail_mem_map_flipped.symm)
  · rw [resolve_eq_complete_iff, resolve_eq_fail_iff, Asks, Asks, Decidable.not_not]
    exact ⟨fun h => hcounted.elim id h, fun h _ => h⟩

/-- One of two children failed, and another did nothing. -/
theorem resolve_algebra_mixed :
    let ks : List ResultKind := [.fail, .complete]
    anyOneCompletes.resolve [.complete, .fail] = anyOneCompletes.resolve ks ∧
      allMustFail.resolve [.fail, .complete, .noAction] = allMustFail.resolve ks ∧
      anyOneFails.resolve ks = allMustComplete.resolve ks ∧
      allMustFail.resolve ks = allMustComplete.resolve [.complete, .fail] ∧
      anyOneCompletes.resolve ks = .complete ∧ allMustFail.resolve ks = .fail := by
  intro ks
  obtain ⟨hperm, hinsert, hsame, hflipped, hnegated⟩ := resolve_algebra ks
  have hfail : allMustFail.resolve ks = .fail := rfl
  exact ⟨(hperm anyOneCompletes _ (.swap ..)).symm,
    hinsert allMustFail .noAction [] (by decide) (by decide), hsame, hflipped,
    (hnegated (.inr List.mem_cons_self)).2 hfail, hfail⟩

end Rulebook.Cascade
