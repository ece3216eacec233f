import Rulebook.Proofs.Decimal.Scaled
import Rulebook.Proofs.Evaluation.Mended

/-!
# Rounding modifiers on large numbers

A decimal is rounded by way of the number scaled by `10 ^ digits`, which must be in range:

    |x| * 10 ^ digits < outOfRange     whole numbers pass, and what is mended is finite
    outOfRange ≤ |x| * 10 ^ digits     the number, which is whole, does not pass, and is mended
                                       to an infinity

The second case takes a number above `10 ^ 293`.
-/

namespace Rulebook

open Decimal

namespace Modifier

variable {m : Modifier} {digits : Nat} {x : Float} {s : CheckSetting}

theorem Rounds.check (hm : m.Rounds digits) (s : CheckSetting) (x : Float) :
    ∃ up kind detail, m.check s (.decimal x) = .ok (if hasDecimals digits x then .pass
      else if s.force then .mended (.decimal (roundTo digits up x)) else .fail kind detail) := by
  rcases hm with rfl | rfl
  · obtain ⟨detail, hdetail⟩ := checkRounding_read (.decimal x) .roundUp digits true s.force
    exact ⟨true, _, detail, hdetail⟩
  · obtain ⟨detail, hdetail⟩ := checkRounding_read (.decimal x) .roundDown digits false s.force
    exact ⟨false, _, detail, hdetail⟩

/-- Numbers with bits after the point are small. -/
theorem isWhole_of_large (hd : digits ≤ 15) (hx : isFinite x = true)
    (h : outOfRange ≤ |exact x| * 10 ^ digits) : isWhole x = true := by
  rcases le_or_gt 0 (parts x).exponent with he | he
  · exact isWhole_iff.2 ⟨hx, _, exact_of_nonneg he⟩
  · have hmantissa : ((parts x).mantissa : ℚ) ≤ 2 ^ 53 := by
      exact_mod_cast (canonical_parts x).mantissa_lt.le
    have hscale : (2 : ℚ) ^ (parts x).exponent ≤ 1 := zpow_le_one_of_nonpos₀ (by norm_num) he.le
    have hsize : |exact x| ≤ 2 ^ 53 := by
      calc |exact x| = (parts x).mantissa * 2 ^ (parts x).exponent := abs_exact x
        _ ≤ 2 ^ 53 * 1 := mul_le_mul hmantissa hscale (by positivity) (by norm_num)
        _ = 2 ^ 53 := mul_one _
    have hpow : (10 : ℚ) ^ digits ≤ 10 ^ 15 := pow_le_pow_right₀ (by norm_num) hd
    have hrange := two_pow_lt_outOfRange
    have hbound : |exact x| * 10 ^ digits ≤ 2 ^ 53 * 10 ^ 15 :=
      mul_le_mul hsize hpow (by positivity) (by norm_num)
    have hsmall : (2 : ℚ) ^ 53 * 10 ^ 15 < 2 ^ 110 := by norm_num
    linarith

/-- **Whole numbers pass and what is mended is finite, as long as the scaled number is in range.**
Out of range are whole numbers only; none of them passes, and all are mended to infinities. -/
theorem check_rounding_of_finite (hm : m.Rounds digits) (hd : digits ≤ 15)
    (hx : isFinite x = true) :
    (|exact x| * 10 ^ digits < outOfRange →
      (isWhole x = true → ∀ s, m.check s (.decimal x) = .ok .pass) ∧
      ∀ s, s.force = true → m.check s (.decimal x) = .ok .pass ∨
        ∃ y, isFinite y = true ∧ m.check s (.decimal x) = .ok (.mended (.decimal y))) ∧
    (outOfRange ≤ |exact x| * 10 ^ digits → isWhole x = true ∧
      (∀ s, s.force = false → ∃ kind detail, m.check s (.decimal x) = .ok (.fail kind detail)) ∧
      ∀ s, s.force = true →
        ∃ y, isFinite y = false ∧ m.check s (.decimal x) = .ok (.mended (.decimal y))) := by
  have hpow : (0 : ℚ) < 10 ^ digits := by positivity
  have hscale := isFinite_scale_iff hd hx
  rw [abs_mul, abs_of_pos hpow] at hscale
  constructor
  · intro hrange
    have hs := hscale.2 hrange
    constructor
    · intro hwhole s
      obtain ⟨up, kind, detail, hcheck⟩ := hm.check s x
      have hnear := hasDecimals_of_onGrid (onGrid_of_isWhole hwhole) (Nat.zero_le _) hd hs
      rw [hcheck, if_pos hnear]
    · intro s hforce
      obtain ⟨up, kind, detail, hcheck⟩ := hm.check s x
      cases hnear : hasDecimals digits x with
      | true => exact .inl (by rw [hcheck, if_pos hnear])
      | false =>
        refine .inr ⟨roundTo digits up x, (isNearest_roundTo hd hs hnear up).finite, ?_⟩
        rw [hcheck, if_neg (Bool.eq_false_iff.1 hnear), if_pos hforce]
  · intro hlarge
    have hs : isFinite (x * tenTo digits) = false :=
      Bool.eq_false_iff.2 fun h => not_lt.2 hlarge (hscale.1 h)
    refine ⟨isWhole_of_large hd hx hlarge, fun s hforce => ?_, fun s hforce => ?_⟩
    · obtain ⟨up, kind, detail, hcheck⟩ := hm.check s x
      obtain ⟨hnear, -⟩ := roundTo_of_overflow hd hx hs up
      refine ⟨kind, detail, ?_⟩
      rw [hcheck, if_neg (Bool.eq_false_iff.1 hnear), if_neg (Bool.eq_false_iff.1 hforce)]
    · obtain ⟨up, kind, detail, hcheck⟩ := hm.check s x
      obtain ⟨hnear, hinfinite⟩ := roundTo_of_overflow hd hx hs up
      refine ⟨roundTo digits up x, hinfinite, ?_⟩
      rw [hcheck, if_neg (Bool.eq_false_iff.1 hnear), if_pos hforce]

/-- `ru(2)` passes on 1000. -/
theorem check_rounding_of_thousand :
    (Modifier.roundUp 2).check ⟨false, false, none⟩ (.decimal 1000) = .ok .pass := by
  have hfinite : isFinite 1000 = true := by decide +kernel
  have hparts : parts 1000 = parts (ofNat 1000) := by decide +kernel
  have hexact : exact 1000 = 1000 := by
    rw [exact, hparts]
    exact exact_ofNat (n := 1000) (by decide)
  have hrange : |exact 1000| * 10 ^ 2 < outOfRange := by
    have hlarge := two_pow_lt_outOfRange
    rw [hexact]
    norm_num at hlarge ⊢
    linarith
  have hwhole : isWhole 1000 = true := by decide +kernel
  exact ((check_rounding_of_finite (.inl rfl) (by decide) hfinite).1 hrange).1 hwhole _

/-- Without force `[|ru(15)]` does not pass on the whole number 1e300, and with force it leaves an
infinity. -/
theorem check_rounding_of_large :
    isFinite 1e300 = true ∧ isWhole 1e300 = true ∧
      (∃ r o, Rule.compile {} "[|ru(15)]" = .ok r ∧ r.evaluate {} (.decimal 1e300) = .ok o ∧
        o.passed = false) ∧
      ∃ r o y, Rule.compile {} "[|ru(15)-f]" = .ok r ∧ r.evaluate {} (.decimal 1e300) = .ok o ∧
        o.value = .decimal y ∧ isFinite y = false := by
  have hfails : (Rule.evaluated? {} "[|ru(15)]" (.decimal 1e300)).map (·.passed) = some false := by
    decide +kernel
  have hforced : (Rule.evaluated? {} "[|ru(15)-f]" (.decimal 1e300)).map
      (fun o => (o.value.kind, o.value.asDecimal?.map isFinite)) = some (.decimal, some false) := by
    decide +kernel
  obtain ⟨o, ho, hpassed⟩ := Option.map_eq_some_iff.1 hfails
  obtain ⟨r, hr, ho⟩ := Rule.exists_of_evaluated? ho
  obtain ⟨o', ho', hvalue⟩ := Option.map_eq_some_iff.1 hforced
  obtain ⟨r', hr', ho'⟩ := Rule.exists_of_evaluated? ho'
  refine ⟨by decide +kernel, by decide +kernel, ⟨r, o, hr, ho, hpassed⟩, r', o', ?_⟩
  obtain ⟨hkind, hinfinite⟩ := Prod.mk.inj hvalue
  generalize o'.value = v at hkind hinfinite ho' ⊢
  cases v with
  | decimal y => exact ⟨y, hr', ho', rfl, Option.some.inj hinfinite⟩
  | null | bool | integer | text | date | list | object => cases hkind

end Modifier

end Rulebook
