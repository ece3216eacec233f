import Rulebook.Proofs.Evaluation.Kept
import Rulebook.Proofs.Evaluation.Range

/-!
# Brackets with force

The modifiers of a bracket are applied in one order, each to what the ones before it left.  Where
none fails, a run leaves

    v = v₀,  v₁,  …,  vₙ = w        vᵢ₊₁ = vᵢ, or what the modifier makes of vᵢ

and what it rewrote are the pairs of a modifier and the value that it met (`rewritings`).  A
modifier passes on `w` where these spare it, and where they spare all modifiers, the whole bracket
passes without force (`passes_of_forced`).
-/

namespace Rulebook

open Decimal Grammar

namespace Modifier

variable {s : CheckSetting} {m m₀ : Modifier} {ms : List Modifier} {u v w : Value}

/-! ## Runs -/

/-- Modifiers that do not fail, one after the other, from a value to what they leave. -/
inductive Passes (s : CheckSetting) : List Modifier → Value → Value → Prop
  | nil (v : Value) : Passes s [] v v
  | pass {m : Modifier} {ms : List Modifier} {v w : Value} : m.check s v = .ok .pass →
      Passes s ms v w → Passes s (m :: ms) v w
  | mended {m : Modifier} {ms : List Modifier} {u v w : Value} : m.check s v = .ok (.mended u) →
      Passes s ms u w → Passes s (m :: ms) v w

/-- The modifiers that rewrite, each with the value that it rewrites. -/
def rewritings (s : CheckSetting) : List Modifier → Value → List (Modifier × Value)
  | [], _ => []
  | m :: ms, v => match m.mended? s v with
    | none => rewritings s ms v
    | some w => (m, v) :: rewritings s ms w

theorem rewritings_of_pass (h : m.check s v = .ok .pass) :
    rewritings s (m :: ms) v = rewritings s ms v := by
  have hnone : m.mended? s v = none := by rw [mended?, h]
  rw [rewritings, hnone]

theorem rewritings_of_mended (h : m.check s v = .ok (.mended u)) :
    rewritings s (m :: ms) v = (m, v) :: rewritings s ms u := by
  rw [rewritings, mended?_eq_some_iff.2 h]

theorem fst_mem_of_mem_rewritings {p : Modifier × Value} (h : p ∈ rewritings s ms v) :
    p.1 ∈ ms := by
  induction ms generalizing v with
  | nil => cases h
  | cons m ms ih =>
    rw [rewritings] at h
    split at h
    · exact List.mem_cons_of_mem _ (ih h)
    · rcases List.mem_cons.1 h with rfl | h
      · exact List.mem_cons_self
      · exact List.mem_cons_of_mem _ (ih h)

/-- **A modifier that was applied before a run still passes after it**, where the run spares it. -/
theorem Passes.kept (h : Passes s ms v w) (hproper : ∀ m ∈ ms, m.Proper) (hproper₀ : m₀.Proper)
    (hrank : ∀ m ∈ ms, m₀.code.rank < m.code.rank)
    (hspares : ∀ p ∈ rewritings s ms v, Spares p.1 p.2 m₀) (h₀ : Conforms s m₀ v) :
    Conforms s m₀ w := by
  induction h with
  | nil => exact h₀
  | pass hcheck _ ih =>
    rw [rewritings_of_pass hcheck] at hspares
    rw [List.forall_mem_cons] at hproper hrank
    exact ih hproper.2 hrank.2 hspares h₀
  | mended hcheck _ ih =>
    rw [rewritings_of_mended hcheck, List.forall_mem_cons] at hspares
    rw [List.forall_mem_cons] at hproper hrank
    exact ih hproper.2 hrank.2 hspares.2
      (conforms_of_kept (mends_of_check hcheck) hproper.1 hproper₀ hrank.1 hspares.1 h₀)

/-- **A modifier of a run passes after it**, where the run spares it. -/
theorem Passes.conforms (h : Passes s ms v w) (hproper : ∀ m ∈ ms, m.Proper)
    (hincreasing : ms.Pairwise fun m m' => m.code.rank < m'.code.rank) (hm : m₀ ∈ ms)
    (hspares : ∀ p ∈ rewritings s ms v, Spares p.1 p.2 m₀) : Conforms s m₀ w := by
  induction h with
  | nil => cases hm
  | pass hcheck hrest ih =>
    rw [rewritings_of_pass hcheck] at hspares
    rw [List.forall_mem_cons] at hproper
    obtain ⟨hrank, hincreasing⟩ := List.pairwise_cons.1 hincreasing
    rcases List.mem_cons.1 hm with rfl | hm
    · exact hrest.kept hproper.2 hproper.1 hrank hspares (check_eq_pass_iff.1 hcheck)
    · exact ih hproper.2 hincreasing hm hspares
  | mended hcheck hrest ih =>
    rw [rewritings_of_mended hcheck, List.forall_mem_cons] at hspares
    rw [List.forall_mem_cons] at hproper
    obtain ⟨hrank, hincreasing⟩ := List.pairwise_cons.1 hincreasing
    rcases List.mem_cons.1 hm with rfl | hm
    · have hwell := hspares.1.1 (.inl rfl)
      exact hrest.kept hproper.2 hproper.1 hrank hspares.2
        (conforms_of_mends (mends_of_check hcheck) hwell hproper.1)
    · exact ih hproper.2 hincreasing hm hspares.2

end Modifier

namespace Bracket

variable {b : Bracket} {ev : Evaluator} {v w : Value} {lookup : Option Lookup}
  {ms : List Modifier}

/-- What the modifiers of a bracket are checked under. -/
def setting (b : Bracket) (lookup : Option Lookup) : CheckSetting :=
  ⟨b.force, b.has .ignoreCase, lookup⟩

/-- What the modifiers of a bracket rewrite, of a value. -/
def rewritings (b : Bracket) (lookup : Option Lookup) (v : Value) : List (Modifier × Value) :=
  Modifier.rewritings (b.setting lookup) b.modifiers v

theorem passes_of_testModifier {m : Modifier} {s t : TestState}
    (h : outcome (b.testModifier lookup m) s = (.ok true, t))
    (hrest : Modifier.Passes (b.setting lookup) ms t.value w) :
    Modifier.Passes (b.setting lookup) (m :: ms) s.value w := by
  obtain ⟨v, u, hv, h⟩ := outcome_bind_ok_iff.1 h
  cases hv
  split at h
  · cases h
  · next hcheck =>
    cases h
    exact .pass hcheck hrest
  · next hcheck =>
    cases h
    exact .mended hcheck hrest
  · cases h

theorem passes_of_testModifiers {s t : TestState}
    (h : outcome (b.testModifiers lookup ms) s = (.ok true, t)) :
    Modifier.Passes (b.setting lookup) ms s.value t.value := by
  induction ms generalizing s with
  | nil =>
    cases h
    exact .nil _
  | cons m ms ih =>
    obtain ⟨p, s₁, hm, h⟩ := outcome_bind_ok_iff.1 h
    obtain ⟨q, s₂, hms, h⟩ := outcome_bind_ok_iff.1 h
    obtain ⟨hand, rfl⟩ := Prod.mk.inj h
    obtain ⟨rfl, rfl⟩ := Bool.and_eq_true_iff.1 (Except.ok.inj hand)
    exact passes_of_testModifier hm (ih hms)

/-- The modifiers of a bracket that passes did not fail. -/
theorem passes_of_evaluate {o : Evaluation} (h : (Rule.bracket b).evaluate ev v = .ok o)
    (hpassed : o.passed = true) :
    Modifier.Passes (b.setting ev.lookup) b.modifiers v o.value := by
  have hrun := Rule.evaluate_eq_ok h
  obtain ⟨p, s₁, hp, hrun⟩ := outcome_bind_ok_iff.1 hrun
  obtain ⟨q, s₂, hq, hrun⟩ := outcome_bind_ok_iff.1 hrun
  obtain ⟨hand, hvalue⟩ := Prod.mk.inj hrun
  rw [hpassed] at hand
  obtain ⟨-, rfl⟩ := Bool.and_eq_true_iff.1 (Except.ok.inj hand)
  -- the operand does not change the value
  obtain ⟨r, hoperand⟩ := testOperand_answers (b := b) (v := v)
  obtain ⟨ds, hds⟩ := hoperand []
  obtain ⟨-, rfl⟩ := Prod.mk.inj (hp.symm.trans hds)
  have hpasses := passes_of_testModifiers hq
  rwa [hvalue] at hpasses

theorem testModifiers_of_conforms (h : ∀ m ∈ ms, Modifier.Conforms (b.setting lookup) m v) :
    Answers (b.testModifiers lookup ms) v (.ok true) := by
  induction ms with
  | nil => exact .pure
  | cons m ms ih =>
    rw [List.forall_mem_cons] at h
    have hcheck : m.check ⟨b.force, b.has .ignoreCase, lookup⟩ v = .ok .pass :=
      Modifier.check_eq_pass_iff.2 h.1
    have hm : Answers (b.testModifier lookup m) v (.ok true) := by
      refine Answers.value.bind ?_
      rw [hcheck]
      exact .pure
    exact hm.bind ((ih h.2).bind .pure)

/-- A bracket without a target passes what its modifiers pass. -/
theorem evaluate_of_conforms (htarget : b.target = none)
    (h : ∀ m ∈ b.modifiers, Modifier.Conforms (b.setting ev.lookup) m v) :
    ∃ o, (Rule.bracket b).evaluate ev v = .ok o ∧ o.passed = true ∧ o.value = v := by
  have htest : Answers (b.test ev.lookup) v (.ok true) :=
    (testOperand_absent htarget).bind ((testModifiers_of_conforms h).bind .pure)
  obtain ⟨ds, hds⟩ := htest []
  exact ⟨⟨true, v, ds⟩, by rw [Rule.evaluate_eq, Rule.test, hds]; rfl, rfl, rfl⟩

/-- **What a forced bracket leaves passes each modifier without force** that its rewritings spare:
it wrote what it was to write, no later modifier is at odds with it, and a later rounding was of a
decimal that can be scaled.  Where all of them are spared, the bracket passes without force. -/
theorem passes_of_forced (config : Config) (text : String) (r : Rule) (b : Bracket)
    (hr : Rule.compile config text = .ok r) (hb : b ∈ r.leaves) (htarget : b.target = none)
    (ev : Evaluator) (v : Value) (o : Evaluation) (ho : (Rule.bracket b).evaluate ev v = .ok o)
    (hpassed : o.passed = true) :
    (∀ m ∈ b.modifiers, (∀ p ∈ b.rewritings ev.lookup v, Modifier.Spares p.1 p.2 m) →
      m.check ⟨false, b.has .ignoreCase, ev.lookup⟩ o.value = .ok .pass) ∧
    ((∀ m ∈ b.modifiers, ∀ p ∈ b.rewritings ev.lookup v, Modifier.Spares p.1 p.2 m) →
      ∃ o', (Rule.bracket { b with force := false }).evaluate ev o.value = .ok o' ∧
        o'.passed = true ∧ o'.value = o.value) := by
  have hbuilt := built_of_compile hr hb
  have hproper : ∀ m ∈ b.modifiers, m.Proper := fun m hm => Modifier.proper_of_compile hr hb hm
  have hpasses := passes_of_evaluate ho hpassed
  have hconforms : ∀ m ∈ b.modifiers,
      (∀ p ∈ b.rewritings ev.lookup v, Modifier.Spares p.1 p.2 m) →
        Modifier.Conforms ⟨false, b.has .ignoreCase, ev.lookup⟩ m o.value := fun m hm hspares =>
    (hpasses.conforms hproper hbuilt.increasing hm hspares).of_force
  constructor
  · intro m hm hspares
    exact Modifier.check_eq_pass_iff.2 (hconforms m hm hspares)
  · intro hspares
    exact evaluate_of_conforms htarget fun m hm => hconforms m hm (hspares m hm)

/-- `[|u|mx(3)-f]` makes ABC of abcdef, and nothing that the one does is undone by the other. -/
theorem passes_of_forced_upper_max : ∃ r b o o', Rule.compile {} "[|u|mx(3)-f]" = .ok r ∧
    b ∈ r.leaves ∧ b.force = true ∧ (Rule.bracket b).evaluate {} (.text "abcdef") = .ok o ∧
    o.value = .text "ABC" ∧
    (Rule.bracket { b with force := false }).evaluate {} (.text "ABC") = .ok o' ∧
    o'.passed = true := by
  have hrun : (Rule.firstBracket? {} "[|u|mx(3)-f]").any (fun b => b.force && b.target.isNone &&
      b.modifiers.map (fun m => (m.code, m.bounds.map Value.number?)) ==
        [(.upper, []), (.max, [some 3])] &&
      ((Rule.bracket b).evaluate {} (.text "abcdef")).toOption.map (fun o =>
        (o.passed, o.value.asText?)) == some (true, some "ABC")) = true := by
    decide +kernel
  obtain ⟨b, hb, hrun⟩ := (Option.any_eq_true _ _).1 hrun
  obtain ⟨r, hr, hleaf⟩ := Rule.exists_of_firstBracket? hb
  simp only [Bool.and_eq_true, beq_iff_eq, Option.isNone_iff_eq_none] at hrun
  obtain ⟨⟨⟨hforce, htarget⟩, hmodifiers⟩, hforced⟩ := hrun
  obtain ⟨o, ho, hvalue⟩ := Option.map_eq_some_iff.1 hforced
  obtain ⟨hpassed, htext⟩ := Prod.mk.inj hvalue
  have hvalue : o.value = .text "ABC" := by
    generalize o.value = v at htext
    cases v with
    | text t => exact congrArg Value.text (Option.some.inj htext)
    | null | bool | integer | decimal | date | list | object => cases htext
  have hcases : ∀ m ∈ b.modifiers, m = .upper ∨ ∃ limit, m = .max limit ∧ exact limit = 3 := by
    intro m hm
    have hmem := List.mem_map_of_mem (f := fun m => (m.code, m.bounds.map Value.number?)) hm
    rw [hmodifiers] at hmem
    cases m with
    | upper => exact .inl rfl
    | max limit =>
      have hlimit : (if isFinite limit then some (exact limit) else none) = some 3 := by
        simpa [Modifier.code, Modifier.bounds, Value.number?] using hmem
      refine .inr ⟨limit, rfl, ?_⟩
      split at hlimit
      · exact Option.some.inj hlimit
      · cases hlimit
    | lower | ignoreCase | min | email | oneOf | inTable | required | roundUp | roundDown
    | between => simp [Modifier.code] at hmem
  have hwell : ∀ p ∈ b.rewritings none (.text "abcdef"), Modifier.MendsWell p.1 p.2 := by
    rintro ⟨m, v⟩ hp
    obtain rfl | ⟨limit, rfl, hlimit⟩ := hcases m (Modifier.fst_mem_of_mem_rewritings hp)
    · trivial
    · cases v <;> first | trivial | (show _ ≤ exact limit; rw [hlimit]; norm_num)
  have hspares : ∀ m ∈ b.modifiers, ∀ p ∈ b.rewritings none (.text "abcdef"),
      Modifier.Spares p.1 p.2 m := by
    rintro m₀ - ⟨m, v⟩ hp
    refine ⟨fun _ => hwell _ hp, fun hundo => ?_⟩
    have hcode := hundo.code_mem
    obtain rfl | ⟨limit, rfl, -⟩ := hcases m (Modifier.fst_mem_of_mem_rewritings hp) <;>
      simp [Modifier.code] at hcode
  obtain ⟨-, hunforced⟩ := passes_of_forced {} _ r b hr hleaf htarget {} _ o
    (eq_ok_of_toOption ho) hpassed
  obtain ⟨o', ho', hpassed', -⟩ := hunforced hspares
  rw [hvalue] at ho'
  exact ⟨r, b, o, o', hr, hleaf, hforce, eq_ok_of_toOption ho, hvalue, ho', hpassed'⟩

/-- `[|mx(3)|mn(5)-f]` passes on 9, as 3 first and then as 5, which it does not pass without
force. -/
theorem not_passes_of_forced : ∃ r b o o', Rule.compile {} "[|mx(3)|mn(5)-f]" = .ok r ∧
    b ∈ r.leaves ∧ b.force = true ∧ b.target = none ∧
    (Rule.bracket b).evaluate {} (.integer 9) = .ok o ∧ o.passed = true ∧ o.value = .integer 5 ∧
    (Rule.bracket { b with force := false }).evaluate {} (.integer 5) = .ok o' ∧
    o'.passed = false := by
  have hrun : (Rule.firstBracket? {} "[|mx(3)|mn(5)-f]").any (fun b => b.force && b.target.isNone &&
      ((Rule.bracket b).evaluate {} (.integer 9)).toOption.map (fun o =>
        (o.passed, o.value.kind, o.value.asInteger?)) == some (true, .integer, some 5) &&
      ((Rule.bracket { b with force := false }).evaluate {} (.integer 5)).toOption.map (·.passed) ==
        some false) = true := by
    decide +kernel
  obtain ⟨b, hb, hrun⟩ := (Option.any_eq_true _ _).1 hrun
  obtain ⟨r, hr, hleaf⟩ := Rule.exists_of_firstBracket? hb
  simp only [Bool.and_eq_true, beq_iff_eq, Option.isNone_iff_eq_none] at hrun
  obtain ⟨⟨⟨hforce, htarget⟩, hforced⟩, hunforced⟩ := hrun
  obtain ⟨o, ho, hvalue⟩ := Option.map_eq_some_iff.1 hforced
  obtain ⟨o', ho', hpassed'⟩ := Option.map_eq_some_iff.1 hunforced
  obtain ⟨hpassed, hvalue⟩ := Prod.mk.inj hvalue
  obtain ⟨hkind, hinteger⟩ := Prod.mk.inj hvalue
  refine ⟨r, b, o, o', hr, hleaf, hforce, htarget, eq_ok_of_toOption ho, hpassed, ?_,
    eq_ok_of_toOption ho', hpassed'⟩
  generalize o.value = v at hkind hinteger
  cases v with
  | integer n => exact congrArg Value.integer (Option.some.inj hinteger)
  | null | bool | decimal | text | date | list | object => cases hkind

end Bracket

end Rulebook
