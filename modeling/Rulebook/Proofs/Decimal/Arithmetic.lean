import Rulebook.Proofs.Decimal.Conversion

/-!
# Arithmetic on decimals

A product, a quotient or a difference of finite decimals is the exact one, rounded:

    Rounded (exact x * exact y) (x * y)
    Rounded (exact x / exact y) (x / y)         for exact y ≠ 0
    Rounded (exact x - exact y) (x - y)

`Rounded q x` says that `x` is the canonical number nearest to `q` where that is in range, and an
infinity elsewhere; which of them it is depends on the size of `q` alone (`Rounded.isFinite_iff`).
A quotient of mantissas has a rest, of which rounding keeps two bits (`halfEven_restBits`).
-/

namespace Rulebook.Decimal

open Float.Model Float.Model.UnpackedFloat

variable {x y : Float} {q q' : ℚ}

/-! ## Signs -/

namespace Parts

/-- The number of a sign and a size. -/
def withSign (negative : Bool) (q : ℚ) : ℚ := if negative then -q else q

theorem exact_eq_withSign (p : Parts) : p.exact = withSign p.negative p.size := rfl

theorem withSign_mul (a b : Bool) (q r : ℚ) :
    withSign a q * withSign b r = withSign (a != b) (q * r) := by
  unfold withSign
  cases a <;> cases b <;> simp

theorem withSign_div (a b : Bool) (q r : ℚ) :
    withSign a q / withSign b r = withSign (a != b) (q / r) := by
  unfold withSign
  cases a <;> cases b <;> simp [neg_div, div_neg]

theorem sign_mul (a b : Bool) : sign a * sign b = sign (a != b) := by
  cases a <;> cases b <;> rfl

theorem sign_div (a b : Bool) : sign a / sign b = sign (a != b) := by
  cases a <;> cases b <;> rfl

theorem rounds_zero (negative : Bool) : (⟨negative, 0, -1074⟩ : Parts).Rounds 0 := by
  have hexact : (⟨negative, 0, -1074⟩ : Parts).exact = 0 := by
    cases negative <;> simp [exact, size]
  refine ⟨⟨Nat.two_pow_pos 53, Int.le_refl _, .inl rfl⟩, fun p _ => ?_, fun _ _ _ _ => rfl, ?_⟩
  · rw [hexact, sub_zero, abs_zero]
    exact abs_nonneg _
  · rw [hexact, sub_zero, abs_zero]
    positivity

theorem unpacked_zero (negative : Bool) :
    (⟨negative, 0, -1074⟩ : Parts).unpacked = .zero (sign negative) := rfl

/-- Canonical parts are rounded to themselves. -/
theorem Canonical.rounds {p : Parts} (hp : p.Canonical) : p.Rounds p.exact := by
  refine ⟨hp, fun p' _ => ?_, fun p' _ htie hne => ?_, ?_⟩
  · rw [sub_self, abs_zero]
    exact abs_nonneg _
  · rw [sub_self, abs_zero] at htie
    exact absurd (sub_eq_zero.1 (abs_eq_zero.1 htie)) hne
  · rw [sub_self, abs_zero]
    positivity

/-- Canonical parts without a sign or a mantissa. -/
theorem cases_unpacked (p : Parts) :
    (p.mantissa = 0 ∧ p.exact = 0 ∧ p.unpacked = .zero (sign p.negative)) ∨
      ∃ h : 0 < p.mantissa,
        p.unpacked = .finite (sign p.negative) p.mantissa p.exponent h := by
  by_cases h0 : p.mantissa = 0
  · refine .inl ⟨h0, ?_, dif_pos h0⟩
    rw [exact, size_of_mantissa_zero h0, neg_zero, ite_self]
  · exact .inr ⟨Nat.pos_of_ne_zero h0, dif_neg h0⟩

end Parts

/-! ## Products -/

/-- A mantissa that is not short, or an exponent that is not above the least: no bits are added. -/
theorem le_lastExponent {m : Nat} {e : Int} (h : e ≤ -1074 ∨ 2 ^ 52 ≤ m) :
    e ≤ lastExponent m e := by
  unfold lastExponent
  rcases h with h | h
  · omega
  · have hm : m ≠ 0 := by omega
    have hlog := (Nat.le_log2 hm).2 h
    omega

theorem exists_rounds_mul {p r : Parts} (hp : p.Canonical) (hr : r.Canonical) :
    ∃ s : Parts, s.Rounds (p.exact * r.exact) ∧
      UnpackedFloat.mul Format.binary64 p.unpacked r.unpacked = s.unpacked := by
  rcases p.cases_unpacked with ⟨-, hexact, hp'⟩ | ⟨hmantissa, hp'⟩
  · refine ⟨⟨p.negative != r.negative, 0, -1074⟩, ?_, ?_⟩
    · rw [hexact, zero_mul]
      exact Parts.rounds_zero _
    · rw [hp', Parts.unpacked_zero, ← Parts.sign_mul]
      rcases r.cases_unpacked with ⟨-, -, hr'⟩ | ⟨_, hr'⟩ <;> rw [hr'] <;> rfl
  rcases r.cases_unpacked with ⟨-, hexact, hr'⟩ | ⟨hmantissa', hr'⟩
  · refine ⟨⟨p.negative != r.negative, 0, -1074⟩, ?_, ?_⟩
    · rw [hexact, mul_zero]
      exact Parts.rounds_zero _
    · rw [hp', hr', Parts.unpacked_zero, ← Parts.sign_mul]
      rfl
  -- two subnormal mantissas may be short, but then the exponent is below the least
  have hlast : p.exponent + r.exponent ≤
      lastExponent (p.mantissa * r.mantissa) (p.exponent + r.exponent) := by
    refine le_lastExponent ?_
    rcases hp.normal with he | hm
    · rcases hr.normal with he' | hm'
      · exact .inl (by omega)
      · exact .inr (le_mul_of_one_le_of_le hmantissa hm')
    · exact .inr (le_mul_of_le_of_one_le hm hmantissa')
  obtain ⟨s, hs, -, hround⟩ := exists_rounds (p.negative != r.negative) hlast
  refine ⟨s, ?_, ?_⟩
  · have hvalue : ((p.mantissa * r.mantissa : ℕ) : ℚ) * 2 ^ (p.exponent + r.exponent) =
        p.size * r.size := by
      rw [Parts.size, Parts.size, zpow_add₀ (by norm_num)]
      push_cast
      ring
    rw [Parts.exact_eq_withSign, Parts.exact_eq_withSign, Parts.withSign_mul, ← hvalue]
    exact hs
  · rw [hp', hr', ← hround, ← Parts.sign_mul]
    rfl

/-! ## Quotients -/

/-- The rest `r` of a division by `d` as two bits: whether it comes up to the half of `d`, and
whether it goes past the last of nothing and the half. -/
def restBits (r d : Nat) : Nat :=
  if r = 0 then 0 else if 2 * r < d then 1 else if 2 * r = d then 2 else 3

theorem ofMantissaAndAccuracy_eq (m r d : Nat) :
    ExtendedMantissa.ofMantissaAndAccuracy m (accuracyOfFraction r d) =
      (⟨4 * m + restBits r d, false, false⟩ : ExtendedMantissa) >>> 2 := by
  have hshift (c : Nat) (hc : c < 4) : (⟨4 * m + c, false, false⟩ : ExtendedMantissa) >>> 2 =
      ⟨m, c / 2 != 0, c % 2 != 0⟩ := by
    rw [shift_exact (4 * m + c) 1]
    have hm : (4 * m + c) / 2 ^ (1 + 1) = m := by omega
    have hround : (4 * m + c) / 2 ^ 1 % 2 = c / 2 := by omega
    have hsticky : (4 * m + c) % 2 ^ 1 = c % 2 := by omega
    rw [hm, hround, hsticky]
  unfold restBits accuracyOfFraction
  by_cases h0 : r = 0
  · rw [if_pos h0, if_pos h0, hshift 0 (by decide)]
    rfl
  rw [if_neg h0, if_neg h0]
  rcases Nat.lt_trichotomy (2 * r) d with h | h | h
  · rw [if_pos h, Nat.compare_eq_lt.2 h, hshift 1 (by decide)]
    rfl
  · rw [if_neg (by omega), if_pos h, Nat.compare_eq_eq.2 h, hshift 2 (by decide)]
    rfl
  · rw [if_neg (by omega), if_neg (by omega), Nat.compare_eq_gt.2 h, hshift 3 (by decide)]
    rfl

/-- The two bits of the rest are enough to round by. -/
theorem halfEven_restBits (n k : Nat) {d : Nat} (hd : 0 < d) :
    halfEven (4 * (n / d) + restBits (n % d) d) (2 ^ (k + 2)) = halfEven n (d * 2 ^ k) := by
  have hr : n % d < d := Nat.mod_lt n hd
  have hR : n / d % 2 ^ k < 2 ^ k := Nat.mod_lt _ (Nat.two_pow_pos k)
  have hbits : restBits (n % d) d < 4 := by
    unfold restBits
    split_ifs <;> decide
  have hpow : 2 ^ (k + 2) = 4 * 2 ^ k := by rw [Nat.pow_add]; omega
  have hdiv : (4 * (n / d) + restBits (n % d) d) / 2 ^ (k + 2) = n / d / 2 ^ k := by
    rw [hpow, ← Nat.div_div_eq_div_mul]
    congr 1
    omega
  have hmod : (4 * (n / d) + restBits (n % d) d) % 2 ^ (k + 2) =
      4 * (n / d % 2 ^ k) + restBits (n % d) d := by
    rw [hpow, Nat.mod_mul]
    have hlow : (4 * (n / d) + restBits (n % d) d) / 4 = n / d := by omega
    rw [hlow]
    omega
  have hmod' : n % (d * 2 ^ k) = n % d + d * (n / d % 2 ^ k) := Nat.mod_mul
  unfold halfEven
  rw [hdiv, hmod, ← Nat.div_div_eq_div_mul, hmod']
  generalize n / d / 2 ^ k = q
  generalize n / d % 2 ^ k = R at hR ⊢
  generalize n % d = r at hr hbits ⊢
  cases k with
  | zero =>
    have hzero : R = 0 := by omega
    subst hzero
    unfold restBits
    split_ifs <;> omega
  | succ k =>
    have hdouble : 2 ^ (k + 1) = 2 * 2 ^ k := Nat.pow_succ'
    have hquad : 2 ^ (k + 1 + 2) = 8 * 2 ^ k := by rw [hpow, hdouble]; omega
    have hproduct : d * 2 ^ (k + 1) = 2 * (d * 2 ^ k) := by rw [hdouble, Nat.mul_left_comm]
    rw [hquad, hproduct]
    generalize 2 ^ k = h
    -- below the half, at it, or above
    rcases Nat.lt_trichotomy R h with hlt | heq | hgt
    · have hstep : d * R + d ≤ d * h := Nat.mul_le_mul_left d hlt
      rw [if_pos (by omega), if_pos (by omega)]
    · subst heq
      by_cases h0 : r = 0
      · have hbits0 : restBits r d = 0 := if_pos h0
        rw [if_neg (by omega), if_pos (by omega), if_neg (by omega), if_pos (by omega)]
      · have hbits0 : restBits r d ≠ 0 := by
          rw [restBits, if_neg h0]
          split_ifs <;> decide
        rw [if_neg (by omega), if_neg (by omega), if_neg (by omega), if_neg (by omega)]
    · have hstep : d * h + d ≤ d * R := Nat.mul_le_mul_left d hgt
      rw [if_neg (by omega), if_neg (by omega), if_neg (by omega), if_neg (by omega)]

theorem shift_add (x : ExtendedMantissa) (j k : Nat) : (x >>> j) >>> k = x >>> (k + j) := by
  induction k with
  | zero => rw [Nat.zero_add]; rfl
  | succ k ih => rw [shiftRight_succ, ih, Nat.succ_add, shiftRight_succ]

theorem shiftToTargetExponent_fraction {n d : Nat} {e : Int} (he : e ≤ lastExponent (n / d) e) :
    shiftToTargetExponent Format.binary64 (n / d) e (accuracyOfFraction (n % d) d) =
      ((⟨4 * (n / d) + restBits (n % d) d, false, false⟩ : ExtendedMantissa) >>>
        ((lastExponent (n / d) e - e).toNat + 2), lastExponent (n / d) e) := by
  have hlast : e + ((lastExponent (n / d) e - e).toNat : Int) = lastExponent (n / d) e := by omega
  rw [← shift_add, ← ofMantissaAndAccuracy_eq, shiftToTargetExponent, targetExponent_eq]
  exact Prod.ext rfl hlast

/-- A quotient of mantissas is rounded with its rest. -/
theorem exists_rounds_fraction (negative : Bool) {n d : Nat} {e : Int} (hd : 0 < d)
    (he : e ≤ lastExponent (n / d) e) : ∃ p : Parts,
      p.Rounds (Parts.withSign negative (n / d * 2 ^ e)) ∧
        roundWithAccuracy Format.binary64 (Parts.sign negative) (n / d) e
          (accuracyOfFraction (n % d) d) = p.unpacked := by
  obtain ⟨k, hk⟩ : ∃ k, k = (lastExponent (n / d) e - e).toNat := ⟨_, rfl⟩
  have hshift := shiftToTargetExponent_fraction he
  rw [← hk] at hshift
  have hd' : 0 < d * 2 ^ k := Nat.mul_pos hd (Nat.two_pow_pos k)
  have hlow (h : lastExponent (n / d) e ≠ -1074) : 2 ^ 52 * (d * 2 ^ k) ≤ n := by
    have hle := two_pow_mul_le he h
    rw [← hk, Nat.le_div_iff_mul_le hd] at hle
    calc 2 ^ 52 * (d * 2 ^ k) = 2 ^ 52 * 2 ^ k * d := by ring
      _ ≤ n := hle
  have hhigh : halfEven n (d * 2 ^ k) ≤ 2 ^ 53 := by
    have hlt := mantissa_shift_lt (n / d) e
    rw [shiftToTargetExponent_eq, mantissa_shiftRight] at hlt
    dsimp only at hlt
    rw [← hk, Nat.div_div_eq_div_mul] at hlt
    have hcases := halfEven_cases n (d * 2 ^ k)
    omega
  have hrounded := (roundedMantissa_shift _ _).trans (halfEven_restBits n k hd)
  refine ⟨carried negative (halfEven n (d * 2 ^ k)) (lastExponent (n / d) e), ?_, ?_⟩
  · have hvalue : (n : ℚ) / (d * 2 ^ k : ℕ) * 2 ^ lastExponent (n / d) e = n / d * 2 ^ e := by
      have hlast : lastExponent (n / d) e = (k : ℤ) + e := by omega
      rw [hlast, zpow_add₀ (by norm_num), zpow_natCast]
      push_cast
      field_simp
    rw [← hvalue]
    exact rounds_carried negative hd' (le_max_right _ _) hlow hhigh
  · rw [← hrounded] at hhigh ⊢
    exact roundWithAccuracy_of_shift hshift (le_max_right _ _) hhigh

/-- As many zero bits are added that the quotient has 53 bits, or as there is room for. -/
theorem le_lastExponent_div {m m' : Nat} {e e' t : Int} (hm : 0 < m) (hm' : 0 < m')
    (ht : t = min (e - e') (max (m.log2 + e - (m'.log2 + e') - 53) (-1074))) :
    t ≤ lastExponent (m <<< (e - e' - t).toNat / m') t := by
  rw [Nat.shiftLeft_eq]
  rcases le_or_gt t (-1074) with hlow | hlow
  · exact hlow.trans (le_max_right _ _)
  · have hshift : (m'.log2 + 53 : ℤ) ≤ m.log2 + (e - e' - t).toNat := by omega
    refine le_lastExponent (.inr ((Nat.le_div_iff_mul_le hm').2 ?_))
    calc 2 ^ 52 * m' ≤ 2 ^ 52 * 2 ^ (m'.log2 + 1) :=
          Nat.mul_le_mul_left _ Nat.lt_log2_self.le
      _ = 2 ^ (m'.log2 + 53) := by rw [← Nat.pow_add]; congr 1; omega
      _ ≤ 2 ^ (m.log2 + (e - e' - t).toNat) := Nat.pow_le_pow_right (by decide) (by omega)
      _ = 2 ^ m.log2 * 2 ^ (e - e' - t).toNat := Nat.pow_add _ _ _
      _ ≤ m * 2 ^ (e - e' - t).toNat := Nat.mul_le_mul_right _ (Nat.log2_self_le hm.ne')

theorem exists_rounds_div {p r : Parts} (hr0 : r.mantissa ≠ 0) : ∃ s : Parts,
    s.Rounds (p.exact / r.exact) ∧
      UnpackedFloat.div Format.binary64 p.unpacked r.unpacked = s.unpacked := by
  obtain ⟨hmantissa', hr'⟩ := r.cases_unpacked.resolve_left fun h => hr0 h.1
  rcases p.cases_unpacked with ⟨-, hexact, hp'⟩ | ⟨hmantissa, hp'⟩
  · refine ⟨⟨p.negative != r.negative, 0, -1074⟩, ?_, ?_⟩
    · rw [hexact, zero_div]
      exact Parts.rounds_zero _
    · rw [hp', hr', Parts.unpacked_zero, ← Parts.sign_div]
      rfl
  obtain ⟨t, ht⟩ : ∃ t : Int, t = min (p.exponent - r.exponent)
    (max (p.mantissa.log2 + p.exponent - (r.mantissa.log2 + r.exponent) - 53) (-1074)) := ⟨_, rfl⟩
  obtain ⟨s, hs, hround⟩ := exists_rounds_fraction (p.negative != r.negative) hmantissa'
    (le_lastExponent_div hmantissa hmantissa' ht)
  refine ⟨s, ?_, ?_⟩
  · have hvalue : ((p.mantissa <<< (p.exponent - r.exponent - t).toNat : ℕ) : ℚ) / r.mantissa *
        2 ^ t = p.size / r.size := by
      have hscale : (2 : ℚ) ^ p.exponent =
          2 ^ (p.exponent - r.exponent - t).toNat * 2 ^ t * 2 ^ r.exponent := by
        rw [← zpow_natCast, ← zpow_add₀ (by norm_num), ← zpow_add₀ (by norm_num)]
        congr 1
        omega
      rw [Parts.size, Parts.size, hscale, Nat.shiftLeft_eq]
      push_cast
      field_simp
    rw [Parts.exact_eq_withSign, Parts.exact_eq_withSign, Parts.withSign_div, ← hvalue]
    exact hs
  · have htarget : min (p.exponent - r.exponent) (Format.binary64.targetExponent
        (totalExponent p.mantissa p.exponent - totalExponent r.mantissa r.exponent)) = t := by
      simp only [Format.targetExponent, totalExponent, Format.minExponent, Format.mantissaBits]
      omega
    rw [hp', hr', ← hround, ← Parts.sign_div]
    simp only [UnpackedFloat.div, divCore, htarget]

/-! ## Differences -/

theorem apply_sign (negative : Bool) (m : Nat) :
    (((Parts.sign negative).apply m : ℤ) : ℚ) = Parts.withSign negative m := by
  cases negative
  · rfl
  · show ((-(m : ℤ) : ℤ) : ℚ) = -m
    push_cast
    rfl

theorem exists_rounds_normalize (m : ℤ) (e : Int) : ∃ s : Parts, s.Rounds (m * 2 ^ e) ∧
    UnpackedFloat.normalize Format.binary64 m e .positive = s.unpacked := by
  rcases lt_trichotomy m 0 with h | h | h
  · have hcast : (m : ℚ) = -((-m).toNat : ℕ) := by
      rw [← Int.cast_natCast, Int.toNat_of_nonneg (by omega)]
      push_cast
      ring
    obtain ⟨s, hs, -, hround⟩ :=
      exists_rounds_any true (m := (-m).toNat) (e := e) (by omega)
    refine ⟨s, ?_, ?_⟩
    · rw [hcast, neg_mul]
      exact hs
    · rw [UnpackedFloat.normalize, compare_lt_iff_lt.2 h]
      exact hround
  · refine ⟨⟨false, 0, -1074⟩, ?_, ?_⟩
    · rw [h, Int.cast_zero, zero_mul]
      exact Parts.rounds_zero _
    · rw [UnpackedFloat.normalize, compare_eq_iff_eq.2 h]
      rfl
  · have hcast : (m : ℚ) = (m.toNat : ℕ) := by
      rw [← Int.cast_natCast, Int.toNat_of_nonneg h.le]
    obtain ⟨s, hs, -, hround⟩ :=
      exists_rounds_any false (m := m.toNat) (e := e) (by omega)
    refine ⟨s, ?_, ?_⟩
    · rw [hcast]
      exact hs
    · rw [UnpackedFloat.normalize, compare_gt_iff_gt.2 h]
      exact hround

/-- Zero bits are added until the exponent is `e`. -/
theorem exact_shiftLeft {p : Parts} {e : Int} (he : e ≤ p.exponent) :
    (((Parts.sign p.negative).apply (p.mantissa <<< (p.exponent - e).toNat) : ℤ) : ℚ) * 2 ^ e =
      p.exact := by
  have hscale : (2 : ℚ) ^ p.exponent = 2 ^ (p.exponent - e).toNat * 2 ^ e := by
    rw [← zpow_natCast, ← zpow_add₀ (by norm_num)]
    congr 1
    omega
  rw [apply_sign, Parts.exact_eq_withSign, Parts.size, hscale, Nat.shiftLeft_eq]
  unfold Parts.withSign
  push_cast
  split <;> ring

theorem exists_rounds_sub {p r : Parts} (hp : p.Canonical) (hr : r.Canonical) :
    ∃ s : Parts, s.Rounds (p.exact - r.exact) ∧
      UnpackedFloat.sub Format.binary64 p.unpacked r.unpacked = s.unpacked := by
  rcases p.cases_unpacked with ⟨hp0, hexact, hp'⟩ | ⟨hmantissa, hp'⟩ <;>
    rcases r.cases_unpacked with ⟨hr0, hexact', hr'⟩ | ⟨hmantissa', hr'⟩
  · refine ⟨⟨p.negative && !r.negative, 0, -1074⟩, ?_, ?_⟩
    · rw [hexact, hexact', sub_zero]
      exact Parts.rounds_zero _
    · rw [hp', hr', Parts.unpacked_zero]
      cases p.negative <;> cases r.negative <;> rfl
  · refine ⟨r.negate, ?_, ?_⟩
    · rw [hexact, zero_sub, ← Parts.exact_negate]
      exact hr.negate.rounds
    · rw [← unpacked_neg, hp', hr']
      rfl
  · refine ⟨p, ?_, ?_⟩
    · rw [hexact', sub_zero]
      exact hp.rounds
    · rw [hp', hr']
      rfl
  · obtain ⟨e, he⟩ : ∃ e, e = min p.exponent r.exponent := ⟨_, rfl⟩
    obtain ⟨s, hs, hround⟩ := exists_rounds_normalize
      ((Parts.sign p.negative).apply (p.mantissa <<< (p.exponent - e).toNat) -
        (Parts.sign r.negative).apply (r.mantissa <<< (r.exponent - e).toNat)) e
    refine ⟨s, ?_, ?_⟩
    · rw [← exact_shiftLeft (p := p) (e := e) (by omega),
        ← exact_shiftLeft (p := r) (e := e) (by omega), ← sub_mul, ← Int.cast_sub]
      exact hs
    · rw [hp', hr', ← hround, he]
      rfl

/-! ## Results -/

/-- The canonical number nearest to `q`, packed. -/
def Rounded (q : ℚ) (x : Float) : Prop :=
  ∃ p : Parts, p.Rounds q ∧ x = ⟨Float.Model.pack p.unpacked⟩

theorem rounded_mul (hx : isFinite x = true) (hy : isFinite y = true) :
    Rounded (exact x * exact y) (x * y) := by
  obtain ⟨p, hp, hmul⟩ := exists_rounds_mul (canonical_parts x) (canonical_parts y)
  refine ⟨p, hp, ?_⟩
  rw [← hmul, ← unpack_eq hx, ← unpack_eq hy]
  rfl

theorem mantissa_ne_zero (h : exact x ≠ 0) : (parts x).mantissa ≠ 0 := by
  intro h0
  exact h (by rw [exact_eq, Parts.size_of_mantissa_zero h0, neg_zero, ite_self])

theorem rounded_div (hx : isFinite x = true) (hy : isFinite y = true) (h0 : exact y ≠ 0) :
    Rounded (exact x / exact y) (x / y) := by
  obtain ⟨p, hp, hdiv⟩ := exists_rounds_div (p := parts x) (mantissa_ne_zero h0)
  refine ⟨p, hp, ?_⟩
  rw [← hdiv, ← unpack_eq hx, ← unpack_eq hy]
  rfl

theorem rounded_sub (hx : isFinite x = true) (hy : isFinite y = true) :
    Rounded (exact x - exact y) (x - y) := by
  obtain ⟨p, hp, hsub⟩ := exists_rounds_sub (canonical_parts x) (canonical_parts y)
  refine ⟨p, hp, ?_⟩
  rw [← hsub, ← unpack_eq hx, ← unpack_eq hy]
  rfl

/-! ## Range -/

/-- An infinity. -/
def infinite (negative : Bool) : Float := ⟨Float.Model.pack (.infinity (Parts.sign negative))⟩

theorem isFinite_infinite (negative : Bool) : isFinite (infinite negative) = false := by
  cases negative <;> rfl

theorem pack_large {p : Parts} (hp : p.Canonical) (h : 971 < p.exponent) :
    (⟨Float.Model.pack p.unpacked⟩ : Float) = infinite p.negative := by
  obtain ⟨hmantissa, hp'⟩ := p.cases_unpacked.resolve_left fun h0 => by
    have := hp.normal
    omega
  have hbits : 2 ^ 11 ≤ (p.exponent + Format.binary64.exponentBias + (52 : Nat)).toNat + 1 := by
    show 2 ^ 11 ≤ (p.exponent + 1023 + 52).toNat + 1
    omega
  have hpack : UnpackedFloat.pack Format.binary64 p.unpacked =
      UnpackedFloat.pack Format.binary64 (.infinity (Parts.sign p.negative)) := by
    rw [hp', UnpackedFloat.pack]
    exact if_pos hbits
  unfold infinite Float.Model.pack
  simp only [hpack]

/-- Half of the last place of the greatest decimals. -/
def halfPlace : ℚ := 2 ^ (970 : ℤ)

/-- The middle between the greatest decimal and the canonical number after it. -/
def outOfRange : ℚ := (2 ^ 54 - 1) * halfPlace

theorem halfPlace_pos : 0 < halfPlace := zpow_pos (by norm_num) _

theorem two_zpow_971 : (2 : ℚ) ^ (971 : ℤ) = 2 * halfPlace := zpow_one_add₀ (by norm_num) 970

theorem two_zpow_972 : (2 : ℚ) ^ (972 : ℤ) = 4 * halfPlace := by
  have h : (2 : ℚ) ^ (972 : ℤ) = 2 * 2 ^ (971 : ℤ) := zpow_one_add₀ (by norm_num) 971
  rw [h, two_zpow_971]
  ring

namespace Parts

variable {p r : Parts}

/-- What is on the other side of the middle is not nearer. -/
theorem Rounds.two_mul_le (h : p.Rounds q) (hr : r.Canonical) (hlt : p.exact < r.exact) :
    2 * q ≤ p.exact + r.exact := by
  have hsq := sq_le_sq.2 (h.nearest r hr)
  have hprod : (r.exact - p.exact) * (2 * q - (p.exact + r.exact)) ≤ 0 := by linarith
  linarith [nonpos_of_mul_nonpos_right hprod (sub_pos.2 hlt)]

theorem Rounds.le_two_mul (h : p.Rounds q) (hr : r.Canonical) (hlt : r.exact < p.exact) :
    p.exact + r.exact ≤ 2 * q := by
  have hsq := sq_le_sq.2 (h.nearest r hr)
  have hprod : 0 ≤ (p.exact - r.exact) * (2 * q - (p.exact + r.exact)) := by linarith
  linarith [nonneg_of_mul_nonneg_right hprod (sub_pos.2 hlt)]

theorem exact_le_size (p : Parts) : p.exact ≤ p.size := by
  have hnonneg := p.size_nonneg
  unfold exact
  split <;> linarith

/-- The greatest finite parts. -/
def greatest : Parts := ⟨false, 2 ^ 53 - 1, 971⟩

/-- The parts after the greatest finite ones. -/
def afterGreatest : Parts := ⟨false, 2 ^ 52, 972⟩

theorem canonical_greatest : greatest.Canonical := ⟨by decide, by decide, .inr (by decide)⟩

theorem canonical_afterGreatest : afterGreatest.Canonical :=
  ⟨by decide, by decide, .inr (by decide)⟩

theorem exact_greatest : greatest.exact = (2 ^ 54 - 2) * halfPlace := by
  show ((2 ^ 53 - 1 : ℕ) : ℚ) * 2 ^ (971 : ℤ) = _
  rw [two_zpow_971]
  push_cast
  ring

theorem exact_afterGreatest : afterGreatest.exact = 2 ^ 54 * halfPlace := by
  show ((2 ^ 52 : ℕ) : ℚ) * 2 ^ (972 : ℤ) = _
  rw [two_zpow_972]
  push_cast
  ring

theorem Canonical.code_le_greatest (hp : p.Canonical) (he : p.exponent ≤ 971) :
    p.code ≤ greatest.code := by
  have hmantissa := hp.mantissa_lt
  show (p.exponent + 1074) * 2 ^ 52 + p.mantissa ≤ (971 + 1074) * 2 ^ 52 + (2 ^ 53 - 1 : ℕ)
  omega

theorem Canonical.size_le_greatest (hp : p.Canonical) (he : p.exponent ≤ 971) :
    p.size ≤ greatest.size :=
  not_lt.1 fun h => absurd ((canonical_greatest.size_lt_iff hp).1 h)
    (not_lt.2 (hp.code_le_greatest he))

theorem Rounds.lt_outOfRange (h : p.Rounds q) (he : p.exponent ≤ 971) : q < outOfRange := by
  have hplace := halfPlace_pos
  have hsize := h.canonical.size_le_greatest he
  have hexact := exact_greatest
  have hafter := exact_afterGreatest
  have hle : p.exact ≤ greatest.exact := p.exact_le_size.trans hsize
  have hmiddle := h.two_mul_le canonical_afterGreatest (by linarith)
  unfold outOfRange
  by_contra hge
  -- the greatest mantissa is odd
  have hpexact : p.exact = greatest.exact := by linarith
  have hq : q = (2 ^ 54 - 1) * halfPlace := by linarith
  have htie : |afterGreatest.exact - q| = |p.exact - q| := by
    rw [hpexact, hexact, hafter, hq, abs_of_nonneg (by linarith), abs_of_nonpos (by linarith)]
    ring
  have heven := h.even afterGreatest canonical_afterGreatest htie (by linarith)
  have hpsize : p.size = greatest.size := le_antisymm hsize (by
    calc greatest.size = p.exact := hpexact.symm
      _ ≤ p.size := p.exact_le_size)
  have hcode : p.code = greatest.code := by
    refine le_antisymm (h.canonical.code_le_greatest he) (not_lt.1 fun hlt => ?_)
    exact (h.canonical.size_lt canonical_greatest hlt).ne hpsize
  have hmantissa := (h.canonical.eq_of_code canonical_greatest hcode).2
  rw [hmantissa] at heven
  exact absurd heven (by decide)

theorem Rounds.outOfRange_le (h : p.Rounds q) (he : 971 < p.exponent)
    (hpositive : p.negative = false) : outOfRange ≤ q := by
  have hplace := halfPlace_pos
  have hexact := exact_greatest
  have hafter : afterGreatest.exact ≤ p.exact := by
    have hsize : p.exact = p.size := by rw [exact, hpositive]; rfl
    rw [hsize]
    refine not_lt.1 fun h' => absurd ((h.canonical.size_lt_iff canonical_afterGreatest).1 h') ?_
    have hmantissa := h.canonical.normal
    show ¬(p.exponent + 1074) * 2 ^ 52 + p.mantissa < (972 + 1074) * 2 ^ 52 + (2 ^ 52 : ℕ)
    omega
  rw [exact_afterGreatest] at hafter
  have hmiddle := h.le_two_mul canonical_greatest (by linarith)
  unfold outOfRange
  linarith

theorem Rounds.exponent_le_iff (h : p.Rounds q) : p.exponent ≤ 971 ↔ |q| < outOfRange := by
  constructor
  · intro he
    have hneg := h.negate.lt_outOfRange he
    exact abs_lt.2 ⟨by linarith, h.lt_outOfRange he⟩
  · intro hq
    obtain ⟨hlow, hhigh⟩ := abs_lt.1 hq
    by_contra he
    cases hnegative : p.negative
    · linarith [h.outOfRange_le (not_le.1 he) hnegative]
    · have hpositive : p.negate.negative = false := by
        show (!p.negative) = false
        rw [hnegative]
        rfl
      linarith [h.negate.outOfRange_le (not_le.1 he) hpositive]

end Parts

namespace Rounded

/-- Whether the result is finite depends on the size of the exact one. -/
theorem isFinite_iff (h : Rounded q x) : isFinite x = true ↔ |q| < outOfRange := by
  obtain ⟨p, hp, rfl⟩ := h
  rw [← hp.exponent_le_iff]
  by_cases he : p.exponent ≤ 971
  · exact iff_of_true (hp.isNearest he).finite he
  · rw [pack_large hp.canonical (not_le.1 he), isFinite_infinite]
    exact iff_of_false Bool.false_ne_true he

theorem isNearest (h : Rounded q x) (hx : isFinite x = true) : IsNearest q x := by
  have hrange := h.isFinite_iff.1 hx
  obtain ⟨p, hp, rfl⟩ := h
  exact hp.isNearest (hp.exponent_le_iff.2 hrange)

/-- Half of the last place at most. -/
theorem error (h : Rounded q x) (hx : isFinite x = true) :
    |exact x - q| ≤ |q| / 2 ^ 53 + 2 ^ (-1075 : ℤ) := by
  have hrange := h.isFinite_iff.1 hx
  obtain ⟨p, hp, rfl⟩ := h
  rw [exact, parts_pack hp.canonical (hp.exponent_le_iff.2 hrange)]
  exact hp.error

theorem exists_infinite (h : Rounded q x) (hx : isFinite x = false) : ∃ s, x = infinite s := by
  have hrange := mt h.isFinite_iff.2 (Bool.eq_false_iff.1 hx)
  obtain ⟨p, hp, rfl⟩ := h
  exact ⟨_, pack_large hp.canonical (not_le.1 (mt hp.exponent_le_iff.1 hrange))⟩

end Rounded

end Rulebook.Decimal
