import Rulebook.Proofs.Decimal.Finite
import Rulebook.Proofs.Decimal.Packing

/-!
# Rounding to the nearest decimal

`IsNearest q x` says that no decimal is nearer to `q` than `x`, and that the mantissa of `x` is even
where another is as near.  A mantissa is rounded by the bits that are shifted out of it:

    (⟨m, false, false⟩ >>> k).roundedMantissa = halfEven m (2 ^ k)

and the decimal that comes of `m · 2 ^ e` is the nearest one (`isNearest_round`), as long as it is
in range.
-/

namespace Rulebook.Decimal

open Float.Model Float.Model.UnpackedFloat

/-! ## Halves to even -/

/-- `n / d` to the nearest whole number, ties to even. -/
def halfEven (n d : Nat) : Nat :=
  if 2 * (n % d) < d then n / d
  else if 2 * (n % d) = d then n / d + n / d % 2
  else n / d + 1

/-- The whole number is off by half of one at most, and even where it is off by that. -/
theorem halfEven_spec {n d : Nat} (hd : 0 < d) :
    2 * |(halfEven n d * d - n : ℤ)| ≤ d ∧
      (2 * |(halfEven n d * d - n : ℤ)| = d → halfEven n d % 2 = 0) := by
  have hn : (n : ℤ) = d * (n / d : ℕ) + (n % d : ℕ) := by exact_mod_cast (Nat.div_add_mod n d).symm
  have hr : n % d < d := Nat.mod_lt n hd
  unfold halfEven
  generalize n / d = q at hn ⊢
  generalize n % d = r at hn hr ⊢
  have hdown : (q * d - n : ℤ) = -r := by rw [hn]; ring
  have hup : ((q + 1 : ℕ) * d - n : ℤ) = d - r := by rw [hn]; push_cast; ring
  split
  · rw [hdown, abs_neg, Nat.abs_cast]
    omega
  split
  · next h =>
    rcases Nat.mod_two_eq_zero_or_one q with hq | hq
    · rw [hq, Nat.add_zero, hdown, abs_neg, Nat.abs_cast]
      omega
    · rw [hq, hup, abs_of_nonneg (by omega)]
      omega
  · rw [hup, abs_of_nonneg (by omega)]
    omega

theorem halfEven_cases (n d : Nat) : halfEven n d = n / d ∨ halfEven n d = n / d + 1 := by
  unfold halfEven
  split
  · exact .inl rfl
  split <;> omega

/-- No multiple of `d` is nearer, and of two that are as near an even one is taken. -/
theorem halfEven_nearest {n d : Nat} (hd : 0 < d) (j : ℤ) :
    |(halfEven n d * d - n : ℤ)| ≤ |j * d - n| ∧
      (|j * d - n| = |(halfEven n d * d - n : ℤ)| → j ≠ halfEven n d → halfEven n d % 2 = 0) := by
  obtain ⟨hhalf, heven⟩ := halfEven_spec (n := n) hd
  by_cases hj : j = halfEven n d
  · subst hj
    exact ⟨le_rfl, fun _ h => absurd rfl h⟩
  · have hapart : (d : ℤ) ≤ |j * d - halfEven n d * d| := by
      rw [← sub_mul, abs_mul, Nat.abs_cast]
      exact le_mul_of_one_le_left (Nat.cast_nonneg d) (Int.one_le_abs (sub_ne_zero.2 hj))
    have htriangle := abs_sub_le (j * d : ℤ) n (halfEven n d * d)
    rw [abs_sub_comm (n : ℤ)] at htriangle
    exact ⟨by omega, fun h _ => heven (by omega)⟩

/-- What needs no rounding. -/
theorem halfEven_mul (n : Nat) {d : Nat} (hd : 0 < d) : halfEven (n * d) d = n := by
  rw [halfEven, Nat.mul_mod_left, Nat.mul_div_cancel n hd, if_pos (by omega)]

/-! ## Bits shifted out -/

theorem shiftRight_succ (x : ExtendedMantissa) (k : Nat) :
    x >>> (k + 1) = (x >>> k).shiftRightOne := rfl

/-- The bit after those kept, and whether a later one is set. -/
theorem shift_exact (m k : Nat) : (⟨m, false, false⟩ : ExtendedMantissa) >>> (k + 1) =
    ⟨m / 2 ^ (k + 1), m / 2 ^ k % 2 != 0, m % 2 ^ k != 0⟩ := by
  induction k with
  | zero =>
    show ExtendedMantissa.shiftRightOne ⟨m, false, false⟩ = _
    simp [ExtendedMantissa.shiftRightOne, Nat.mod_one]
  | succ k ih =>
    have hsticky : (m / 2 ^ k % 2 != 0 || m % 2 ^ k != 0) = (m % 2 ^ (k + 1) != 0) := by
      rw [Nat.mod_pow_succ, Bool.eq_iff_iff]
      have hpos := Nat.two_pow_pos k
      simp
      omega
    rw [shiftRight_succ, ih, ExtendedMantissa.shiftRightOne, Nat.div_div_eq_div_mul, ← Nat.pow_succ,
      hsticky]

theorem roundedMantissa_shift (m k : Nat) :
    ((⟨m, false, false⟩ : ExtendedMantissa) >>> k).roundedMantissa = halfEven m (2 ^ k) := by
  cases k with
  | zero =>
    have h := halfEven_mul m (d := 1) Nat.one_pos
    rw [Nat.mul_one] at h
    exact h.symm
  | succ k =>
    have hpos := Nat.two_pow_pos k
    have hsticky : m % 2 ^ k < 2 ^ k := Nat.mod_lt m hpos
    have hmod : m % 2 ^ (k + 1) = m % 2 ^ k + 2 ^ k * (m / 2 ^ k % 2) := Nat.mod_pow_succ
    have hdouble : 2 ^ (k + 1) = 2 * 2 ^ k := Nat.pow_succ'
    rw [shift_exact, halfEven, hmod]
    generalize m / 2 ^ (k + 1) = q
    rcases Nat.mod_two_eq_zero_or_one (m / 2 ^ k) with hround | hround <;> rw [hround]
    · rw [if_pos (by omega)]
      cases m % 2 ^ k != 0 <;> rfl
    · rw [if_neg (by omega)]
      by_cases h0 : m % 2 ^ k = 0
      · rw [if_pos (by omega), h0]
        rfl
      · rw [if_neg (by omega), bne_iff_ne.2 h0]
        rfl

/-! ## Rounding -/

/-- The exponent of the last bit that is kept of `m · 2 ^ e`. -/
def lastExponent (m : Nat) (e : Int) : Int := max (m.log2 + e - 52) (-1074)

/-- A mantissa that was rounded up to 54 bits ends in a zero bit. -/
def carried (negative : Bool) (m : Nat) (e : Int) : Parts :=
  if m = 2 ^ 53 then ⟨negative, 2 ^ 52, e + 1⟩ else ⟨negative, m, e⟩

theorem shiftToTargetExponent_eq (m : Nat) (e : Int) :
    shiftToTargetExponent Format.binary64 m e .exact =
      ((⟨m, false, false⟩ : ExtendedMantissa) >>> (lastExponent m e - e).toNat,
        e + (lastExponent m e - e).toNat) := by
  rw [shiftToTargetExponent, targetExponent_eq]
  rfl

/-- Nothing is shifted out of a mantissa of 53 bits. -/
theorem shift_kept {m : Nat} {e : Int} (hm : m < 2 ^ 53) (he : -1074 ≤ e) :
    shiftToTargetExponent Format.binary64 m e .exact = (⟨m, false, false⟩, e) := by
  have hlog : m.log2 ≤ 52 := by
    by_cases h0 : m = 0
    · rw [h0, Nat.log2_zero]
      omega
    · exact Nat.le_of_lt_succ ((Nat.log2_lt h0).2 hm)
  have hshift : (lastExponent m e - e).toNat = 0 := by
    unfold lastExponent
    omega
  rw [shiftToTargetExponent_eq, hshift, Nat.cast_zero, Int.add_zero]
  rfl

theorem shift_carried {e : Int} (he : -1074 ≤ e) :
    shiftToTargetExponent Format.binary64 (2 ^ 53) e .exact = (⟨2 ^ 52, false, false⟩, e + 1) := by
  have hshift : (lastExponent (2 ^ 53) e - e).toNat = 1 := by
    rw [lastExponent, Nat.log2_two_pow]
    omega
  rw [shiftToTargetExponent_eq, hshift]
  rfl

theorem halfEven_le {m : Nat} {e : Int} :
    halfEven m (2 ^ (lastExponent m e - e).toNat) ≤ 2 ^ 53 := by
  have hlt := mantissa_shift_lt m e
  rw [shiftToTargetExponent_eq, mantissa_shiftRight] at hlt
  dsimp only at hlt
  have hcases := halfEven_cases m (2 ^ (lastExponent m e - e).toNat)
  omega

/-- The mantissa is rounded, and shifted once more where that makes 54 bits. -/
theorem roundWithAccuracy_of_shift {negative : Bool} {m : Nat} {e t : Int} {accuracy : Accuracy}
    {x : ExtendedMantissa} (h : shiftToTargetExponent Format.binary64 m e accuracy = (x, t))
    (ht : -1074 ≤ t) (hx : x.roundedMantissa ≤ 2 ^ 53) :
    roundWithAccuracy Format.binary64 (Parts.sign negative) m e accuracy =
      (carried negative x.roundedMantissa t).unpacked := by
  unfold roundWithAccuracy
  rw [h]
  dsimp only
  generalize x.roundedMantissa = n at hx ⊢
  unfold carried Parts.unpacked
  by_cases hn : n = 2 ^ 53
  · subst hn
    rw [if_pos rfl, shift_carried ht]
  · rw [if_neg hn, shift_kept (by omega) ht]

/-- **What rounding makes of a mantissa.** -/
theorem roundWithAccuracy_eq {negative : Bool} {m : Nat} {e : Int} (he : e ≤ lastExponent m e) :
    roundWithAccuracy Format.binary64 (Parts.sign negative) m e .exact =
      (carried negative (halfEven m (2 ^ (lastExponent m e - e).toNat))
        (lastExponent m e)).unpacked := by
  have hlast : e + ((lastExponent m e - e).toNat : Int) = lastExponent m e := by omega
  have hshift := shiftToTargetExponent_eq m e
  rw [hlast] at hshift
  rw [← roundedMantissa_shift]
  exact roundWithAccuracy_of_shift hshift (le_max_right _ _)
    ((roundedMantissa_shift m _).trans_le halfEven_le)

/-! ## What is nearest -/

variable {negative : Bool} {m : Nat} {e : Int}

/-- A mantissa whose last bit is above the least exponent has 53 bits and more. -/
theorem two_pow_mul_le (he : e ≤ lastExponent m e) (ht : lastExponent m e ≠ -1074) :
    2 ^ 52 * 2 ^ (lastExponent m e - e).toNat ≤ m := by
  have hlast : lastExponent m e = m.log2 + e - 52 := by
    unfold lastExponent at ht ⊢
    omega
  have hshift : 52 + (lastExponent m e - e).toNat = m.log2 := by omega
  have hm : m ≠ 0 := by
    rintro rfl
    rw [Nat.log2_zero] at hshift
    omega
  rw [← Nat.pow_add, hshift]
  exact Nat.log2_self_le hm

theorem canonical_carried {n : Nat} (hn : n ≤ 2 ^ 53) (he : -1074 ≤ e)
    (hnormal : e ≠ -1074 → 2 ^ 52 ≤ n) : (carried negative n e).Canonical := by
  unfold carried
  split
  · exact ⟨by dsimp only; omega, by dsimp only; omega, .inr (Nat.le_refl _)⟩
  · exact ⟨by dsimp only; omega, he, by dsimp only; omega⟩

theorem size_carried (n : Nat) : (carried negative n e).size = n * 2 ^ e := by
  unfold carried Parts.size
  split
  · next h =>
    rw [h, zpow_add_one₀ (by norm_num)]
    push_cast
    ring
  · rfl

theorem even_carried {n : Nat} (h : n % 2 = 0) : (carried negative n e).mantissa % 2 = 0 := by
  unfold carried
  split
  · show 2 ^ 52 % 2 = 0
    decide
  · exact h

theorem negative_carried (n : Nat) : (carried negative n e).negative = negative := by
  unfold carried
  split <;> rfl

theorem exponent_carried (n : Nat) : (carried negative n e).exponent ≤ e + 1 := by
  unfold carried
  split <;> dsimp only <;> omega

/-- Parts whose exponent is no less than `t` are multiples of `2 ^ t`. -/
theorem exists_multiple (p : Parts) {t : Int} (h : t ≤ p.exponent) :
    ∃ j : ℤ, p.exact = j * 2 ^ t := by
  have hscale : (2 : ℚ) ^ p.exponent = 2 ^ (p.exponent - t).toNat * 2 ^ t := by
    rw [← zpow_natCast, Int.toNat_of_nonneg (by omega), ← zpow_add₀ (by norm_num)]
    congr 1
    omega
  refine ⟨(if p.negative then -1 else 1) * (p.mantissa * 2 ^ (p.exponent - t).toNat), ?_⟩
  rw [Parts.exact, Parts.size, hscale]
  cases p.negative
  · push_cast
    simp
    ring
  · push_cast
    simp
    ring

/-- Parts whose exponent is less are not as great as `2 ^ 52` times that. -/
theorem exact_lt_of_exponent {p : Parts} (hp : p.Canonical) {t : Int} (h : p.exponent < t) :
    p.exact < 2 ^ 52 * 2 ^ t := by
  have hsize : p.size < 2 ^ 52 * 2 ^ t := by
    have hlt := Parts.size_lt_of_exponent (q := ⟨false, 2 ^ 52, t⟩) hp (Nat.le_refl _) h
    exact hlt.trans_eq (by rw [Parts.size]; norm_num)
  have hnonneg := p.size_nonneg
  unfold Parts.exact
  split <;> linarith

/-- **Of the multiples of `2 ^ t`, and so of all canonical parts, none is nearer to `n / d · 2 ^ t`
than the rounded one**, and where others are as near, the rounded mantissa is even. -/
theorem nearest_halfEven {n d : Nat} {t : Int} (hd : 0 < d) (hlow : t ≠ -1074 → 2 ^ 52 * d ≤ n)
    {p : Parts} (hp : p.Canonical) :
    let s : ℚ := halfEven n d * 2 ^ t
    let q : ℚ := n / d * 2 ^ t
    |s - q| ≤ |p.exact - q| ∧
      (|p.exact - q| = |s - q| → p.exact ≠ s → halfEven n d % 2 = 0) := by
  intro s q
  have hd' : (0 : ℚ) < d := Nat.cast_pos.2 hd
  have hunit : (0 : ℚ) < 2 ^ t / d := div_pos (zpow_pos (by norm_num) t) hd'
  -- all multiples of the last place are compared as whole numbers of units
  have hmultiple (j : ℤ) : (j : ℚ) * 2 ^ t - q = ((j * d - n : ℤ) : ℚ) * (2 ^ t / d) := by
    show (j : ℚ) * 2 ^ t - n / d * 2 ^ t = _
    push_cast
    field_simp
  have hs : s - q = ((halfEven n d * d - n : ℤ) : ℚ) * (2 ^ t / d) := hmultiple (halfEven n d)
  have hgrid (j : ℤ) := halfEven_nearest (n := n) hd j
  rw [hs, abs_mul, abs_of_pos hunit, ← Int.cast_abs]
  rcases le_or_gt t p.exponent with hp' | hp'
  · obtain ⟨j, hj⟩ := exists_multiple p hp'
    obtain ⟨hle, heven⟩ := hgrid j
    rw [hj, hmultiple, abs_mul, abs_of_pos hunit, ← Int.cast_abs]
    refine ⟨mul_le_mul_of_nonneg_right (by exact_mod_cast hle) hunit.le, fun htie hne => ?_⟩
    refine heven (by exact_mod_cast mul_right_cancel₀ hunit.ne' htie) ?_
    rintro rfl
    exact hne rfl
  · have hn : 2 ^ 52 * d ≤ n := hlow fun h => by
      have := hp.least_exponent
      omega
    have hfar : |(halfEven n d * d - n : ℤ)| ≤ n - 2 ^ 52 * d := by
      have hn' : (2 ^ 52 * d - n : ℤ) ≤ 0 := sub_nonpos.2 (by exact_mod_cast hn)
      have hle := (hgrid (2 ^ 52)).1
      rwa [abs_of_nonpos hn', neg_sub] at hle
    have hlt : p.exact < 2 ^ 52 * 2 ^ t := exact_lt_of_exponent hp hp'
    have hcloser : ((|(halfEven n d * d - n : ℤ)| : ℤ) : ℚ) * (2 ^ t / d) < |p.exact - q| := by
      calc ((|(halfEven n d * d - n : ℤ)| : ℤ) : ℚ) * (2 ^ t / d)
          ≤ ((n - 2 ^ 52 * d : ℤ) : ℚ) * (2 ^ t / d) :=
            mul_le_mul_of_nonneg_right (by exact_mod_cast hfar) hunit.le
        _ = q - 2 ^ 52 * 2 ^ t := by
            show _ = (n : ℚ) / d * 2 ^ t - _
            push_cast
            field_simp
            ring
        _ < q - p.exact := by linarith
        _ ≤ |p.exact - q| := by
            rw [abs_sub_comm]
            exact le_abs_self _
    exact ⟨hcloser.le, fun htie _ => absurd htie hcloser.ne'⟩

/-- Half of the last place, which is not much next to a number that has 53 bits there. -/
theorem error_halfEven {n d : Nat} {t : Int} (hd : 0 < d) (hlow : t ≠ -1074 → 2 ^ 52 * d ≤ n) :
    |(halfEven n d * 2 ^ t - n / d * 2 ^ t : ℚ)| ≤ n / d * 2 ^ t / 2 ^ 53 + 2 ^ (-1075 : ℤ) := by
  have hd' : (0 : ℚ) < d := Nat.cast_pos.2 hd
  have hunit : (0 : ℚ) < 2 ^ t / d := div_pos (zpow_pos (by norm_num) t) hd'
  have hhalf : |((halfEven n d * d - n : ℤ) : ℚ)| ≤ d / 2 := by
    have h : ((2 * |(halfEven n d * d - n : ℤ)| : ℤ) : ℚ) ≤ d := by
      exact_mod_cast (halfEven_spec (n := n) hd).1
    rw [Int.cast_mul, Int.cast_abs] at h
    push_cast at h ⊢
    linarith
  have hhalf' : |(halfEven n d * 2 ^ t - n / d * 2 ^ t : ℚ)| ≤ 2 ^ t / 2 := by
    have hdiff : (halfEven n d * 2 ^ t - n / d * 2 ^ t : ℚ) =
        ((halfEven n d * d - n : ℤ) : ℚ) * (2 ^ t / d) := by
      push_cast
      field_simp
    rw [hdiff, abs_mul, abs_of_pos hunit]
    calc |((halfEven n d * d - n : ℤ) : ℚ)| * (2 ^ t / d)
        ≤ d / 2 * (2 ^ t / d) := mul_le_mul_of_nonneg_right hhalf hunit.le
      _ = 2 ^ t / 2 := by field_simp
  have hnonneg : (0 : ℚ) ≤ n / d * 2 ^ t / 2 ^ 53 := by positivity
  by_cases ht : t = -1074
  · have hleast : (2 : ℚ) ^ t / 2 = 2 ^ (-1075 : ℤ) := by
      rw [ht]
      exact (zpow_sub_one₀ (by norm_num) (-1074)).symm
    linarith
  · have hn : (2 ^ 52 : ℚ) ≤ n / d := by
      rw [le_div_iff₀ hd']
      exact_mod_cast hlow ht
    have hstep : (2 : ℚ) ^ t / 2 ≤ n / d * 2 ^ t / 2 ^ 53 := by
      calc (2 : ℚ) ^ t / 2 = 2 ^ 52 * 2 ^ t / 2 ^ 53 := by ring
        _ ≤ n / d * 2 ^ t / 2 ^ 53 := by gcongr
    have htiny : (0 : ℚ) < 2 ^ (-1075 : ℤ) := by positivity
    linarith

namespace Parts

/-- The canonical parts that a number is rounded to: none are nearer, and where others are as near,
the mantissa is even. -/
structure Rounds (q : ℚ) (p : Parts) : Prop where
  canonical : p.Canonical
  nearest : ∀ p' : Parts, p'.Canonical → |p.exact - q| ≤ |p'.exact - q|
  even : ∀ p' : Parts, p'.Canonical → |p'.exact - q| = |p.exact - q| → p'.exact ≠ p.exact →
    p.mantissa % 2 = 0
  error : |p.exact - q| ≤ |q| / 2 ^ 53 + 2 ^ (-1075 : ℤ)

theorem exact_negate (p : Parts) : p.negate.exact = -p.exact := by
  unfold exact negate size
  cases p.negative <;> simp

theorem Rounds.negate {q : ℚ} {p : Parts} (h : p.Rounds q) : p.negate.Rounds (-q) := by
  have hneg (x : ℚ) : |-x - -q| = |x - q| := by rw [← abs_neg]; congr 1; ring
  have hneg' (x : ℚ) : |x - -q| = |-x - q| := by rw [← abs_neg]; congr 1; ring
  refine ⟨h.canonical.negate, fun p' hp' => ?_, fun p' hp' htie hne => ?_, ?_⟩
  · rw [exact_negate, hneg, hneg', ← exact_negate]
    exact h.nearest _ hp'.negate
  · rw [exact_negate, hneg, hneg', ← exact_negate] at htie
    refine h.even _ hp'.negate htie fun heq => hne ?_
    rw [exact_negate, ← heq, exact_negate, neg_neg]
  · rw [exact_negate, hneg, abs_neg]
    exact h.error

end Parts

theorem rounds_carried (negative : Bool) {n d : Nat} {t : Int} (hd : 0 < d) (ht : -1074 ≤ t)
    (hlow : t ≠ -1074 → 2 ^ 52 * d ≤ n) (hhigh : halfEven n d ≤ 2 ^ 53) :
    (carried negative (halfEven n d) t).Rounds
      (if negative then -(n / d * 2 ^ t) else n / d * 2 ^ t) := by
  have hpositive : (carried false (halfEven n d) t).Rounds (n / d * 2 ^ t) := by
    have hexact : (carried false (halfEven n d) t).exact = halfEven n d * 2 ^ t := by
      rw [Parts.exact, negative_carried, size_carried]
      rfl
    have hnormal (h : t ≠ -1074) : 2 ^ 52 ≤ halfEven n d := by
      have hdiv := (Nat.le_div_iff_mul_le hd).2 (hlow h)
      have hcases := halfEven_cases n d
      omega
    refine ⟨canonical_carried hhigh ht hnormal, fun p hp => ?_, fun p hp htie hne => ?_, ?_⟩
    · rw [hexact]
      exact (nearest_halfEven hd hlow hp).1
    · rw [hexact] at htie hne
      exact even_carried ((nearest_halfEven hd hlow hp).2 htie hne)
    · have hnonneg : (0 : ℚ) ≤ n / d * 2 ^ t := by positivity
      rw [hexact, abs_of_nonneg hnonneg]
      exact error_halfEven hd hlow
  cases negative
  · exact hpositive
  · have hnegate : (carried false (halfEven n d) t).negate = carried true (halfEven n d) t := by
      unfold carried Parts.negate
      split <;> rfl
    rw [← hnegate]
    exact hpositive.negate

/-- **Rounding gives the nearest canonical parts.** -/
theorem exists_rounds (negative : Bool) (he : e ≤ lastExponent m e) : ∃ p : Parts,
    p.Rounds (if negative then -(m * 2 ^ e) else m * 2 ^ e) ∧ p.exponent ≤ lastExponent m e + 1 ∧
      roundWithAccuracy Format.binary64 (Parts.sign negative) m e .exact = p.unpacked := by
  refine ⟨_, ?_, exponent_carried _, roundWithAccuracy_eq he⟩
  have hrounds := rounds_carried negative (t := lastExponent m e)
    (Nat.two_pow_pos _) (le_max_right _ _) (fun h => two_pow_mul_le he h) halfEven_le
  have hvalue : (m : ℚ) / (2 ^ (lastExponent m e - e).toNat : ℕ) * 2 ^ lastExponent m e =
      m * 2 ^ e := by
    have hlast : lastExponent m e = (lastExponent m e - e).toNat + e := by omega
    have hscale : (2 : ℚ) ^ lastExponent m e = 2 ^ (lastExponent m e - e).toNat * 2 ^ e := by
      rw [← zpow_natCast, ← zpow_add₀ (by norm_num), ← hlast]
    rw [hscale]
    push_cast
    field_simp
  rwa [hvalue] at hrounds

/-- No decimal is nearer to `q`, and where others are as near, the mantissa is even. -/
structure IsNearest (q : ℚ) (x : Float) : Prop where
  finite : isFinite x = true
  nearest : ∀ y, isFinite y = true → |exact x - q| ≤ |exact y - q|
  even : ∀ y, isFinite y = true → |exact y - q| = |exact x - q| → exact y ≠ exact x →
    (parts x).mantissa % 2 = 0

theorem Parts.Rounds.isNearest {q : ℚ} {p : Parts} (h : p.Rounds q) (hrange : p.exponent ≤ 971) :
    IsNearest q ⟨Float.Model.pack p.unpacked⟩ := by
  have hparts := parts_pack h.canonical hrange
  generalize (⟨Float.Model.pack p.unpacked⟩ : Float) = x at hparts ⊢
  subst hparts
  exact ⟨isFinite_iff.2 hrange, fun y _ => h.nearest _ (canonical_parts y),
    fun y _ => h.even _ (canonical_parts y)⟩

/-- **Rounding gives the nearest decimal.** -/
theorem isNearest_round (he : e ≤ lastExponent m e) (hrange : lastExponent m e ≤ 970) :
    IsNearest (m * 2 ^ e)
      ⟨Float.Model.pack (roundWithAccuracy Format.binary64 .positive m e .exact)⟩ := by
  obtain ⟨p, hp, hexponent, hround⟩ := exists_rounds false he
  have hpositive : Parts.sign false = .positive := rfl
  rw [hpositive] at hround
  rw [hround]
  exact hp.isNearest (by omega)

namespace IsNearest

variable {q q' : ℚ} {x x' : Float}

theorem neg (h : IsNearest q x) : IsNearest (-q) (-x) := by
  have hneg (y : ℚ) : |-y - q| = |y - -q| := by
    rw [← abs_neg]
    congr 1
    ring
  refine ⟨isFinite_neg h.finite, fun y hy => ?_, fun y hy htie hne => ?_⟩
  · have hle := h.nearest (-y) (isFinite_neg hy)
    rwa [exact_neg hy, hneg, ← neg_neg (exact x), hneg, ← exact_neg h.finite] at hle
  · rw [parts_neg h.finite]
    refine h.even (-y) (isFinite_neg hy) ?_ ?_
    · rw [exact_neg hy, hneg, htie, exact_neg h.finite, ← hneg, neg_neg]
    · rw [exact_neg hy]
      rintro heq
      exact hne (by rw [exact_neg h.finite, ← heq, neg_neg])

theorem of_parts (h : IsNearest q x) (hparts : parts x' = parts x) : IsNearest q x' := by
  have hexact : exact x' = exact x := congrArg Parts.exact hparts
  refine ⟨?_, ?_, ?_⟩
  · rw [isFinite_iff, hparts]
    exact isFinite_iff.1 h.finite
  · rw [hexact]
    exact h.nearest
  · rw [hexact, hparts]
    exact h.even

theorem self (h : isFinite x = true) : IsNearest (exact x) x where
  finite := h
  nearest y _ := by
    rw [sub_self, abs_zero]
    exact abs_nonneg _
  even y _ htie hne := by
    rw [sub_self, abs_zero] at htie
    exact absurd (sub_eq_zero.1 (abs_eq_zero.1 htie)) hne

/-- A number that some decimal stands for is the nearest to itself. -/
theorem exact_eq (h : IsNearest q x) {y : Float} (hy : isFinite y = true) (hq : exact y = q) :
    exact x = q := by
  have hle := h.nearest y hy
  rw [hq, sub_self, abs_zero] at hle
  exact sub_eq_zero.1 (abs_nonpos_iff.1 hle)

/-- Rounding keeps the order of numbers. -/
theorem mono (h : IsNearest q x) (h' : IsNearest q' x') (hlt : q < q') : exact x ≤ exact x' := by
  by_contra hgt
  have hgap : 0 < exact x - exact x' := sub_pos.2 (not_le.1 hgt)
  -- the middle of the two is no more than `q`, and no less than `q'`
  have hmiddle : exact x + exact x' ≤ 2 * q := by
    have hle := sq_le_sq.2 (h.nearest x' h'.finite)
    have hprod : (exact x - exact x') * (exact x + exact x' - 2 * q) ≤ 0 := by linarith
    linarith [nonpos_of_mul_nonpos_right hprod hgap]
  have hmiddle' : 2 * q' ≤ exact x + exact x' := by
    have hle := sq_le_sq.2 (h'.nearest x h.finite)
    have hprod : 0 ≤ (exact x - exact x') * (exact x + exact x' - 2 * q') := by linarith
    linarith [nonneg_of_mul_nonneg_right hprod hgap]
  linarith

end IsNearest

end Rulebook.Decimal
