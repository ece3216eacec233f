import Rulebook.Decimal.Basic
import Mathlib

/-!
# The numbers that decimals stand for

`exact x` is the rational number `± mantissa · 2 ^ exponent` of the parts of `x`.  The parts of a
decimal are canonical: the mantissa has 53 bits, or the exponent is the least.  So their exponents
and mantissas, read as the bits are, come in the order of the numbers:

    exact a < exact b   ↔   level a < level b

where `level` counts the decimals from zero on, in both directions.  The total order is that of the
numbers, with minus zero before zero (`order_eq`).
-/

namespace Rulebook.Decimal

/-! ## Magnitudes -/

namespace Parts

/-- The number without its sign. -/
def size (p : Parts) : ℚ := p.mantissa * 2 ^ p.exponent

/-- The number that the parts stand for. -/
def exact (p : Parts) : ℚ := if p.negative then -p.size else p.size

/-- The parts as they are kept in the bits below the sign. -/
def code (p : Parts) : Int := (p.exponent + 1074) * 2 ^ 52 + p.mantissa

/-- The highest bit of a mantissa of 53 bits is set, unless the exponent is the least. -/
structure Canonical (p : Parts) : Prop where
  mantissa_lt : p.mantissa < 2 ^ 53
  least_exponent : -1074 ≤ p.exponent
  normal : p.exponent = -1074 ∨ 2 ^ 52 ≤ p.mantissa

variable {p q : Parts}

theorem size_nonneg (p : Parts) : 0 ≤ p.size :=
  mul_nonneg (Nat.cast_nonneg _) (zpow_nonneg (by norm_num) _)

theorem size_lt_of_exponent (hp : p.Canonical) (hq : 2 ^ 52 ≤ q.mantissa)
    (h : p.exponent < q.exponent) : p.size < q.size := by
  have hmantissa : (p.mantissa : ℚ) < 2 ^ 53 := by exact_mod_cast hp.mantissa_lt
  have hscale : (2 : ℚ) ^ (p.exponent + 1) ≤ 2 ^ q.exponent :=
    zpow_le_zpow_right₀ (by norm_num) h
  calc p.size < 2 ^ 53 * 2 ^ p.exponent := mul_lt_mul_of_pos_right hmantissa (by positivity)
    _ = 2 ^ 52 * 2 ^ (p.exponent + 1) := by rw [zpow_add_one₀ (by norm_num)]; ring
    _ ≤ 2 ^ 52 * 2 ^ q.exponent := mul_le_mul_of_nonneg_left hscale (by norm_num)
    _ ≤ q.size := mul_le_mul_of_nonneg_right (by exact_mod_cast hq) (by positivity)

/-- Exponents come before mantissas. -/
theorem Canonical.code_lt (hp : p.Canonical) (hq : q.Canonical) (h : p.code < q.code) :
    p.exponent < q.exponent ∧ 2 ^ 52 ≤ q.mantissa ∨
      p.exponent = q.exponent ∧ p.mantissa < q.mantissa := by
  obtain ⟨hp1, hp2, hp3⟩ := hp
  obtain ⟨hq1, hq2, hq3⟩ := hq
  unfold code at h
  omega

theorem Canonical.size_lt (hp : p.Canonical) (hq : q.Canonical) (h : p.code < q.code) :
    p.size < q.size := by
  rcases hp.code_lt hq h with ⟨hexponent, hmantissa⟩ | ⟨hexponent, hmantissa⟩
  · exact size_lt_of_exponent hp hmantissa hexponent
  · unfold size
    rw [hexponent]
    exact mul_lt_mul_of_pos_right (by exact_mod_cast hmantissa) (by positivity)

theorem Canonical.eq_of_code (hp : p.Canonical) (hq : q.Canonical) (h : p.code = q.code) :
    p.exponent = q.exponent ∧ p.mantissa = q.mantissa := by
  obtain ⟨hp1, hp2, hp3⟩ := hp
  obtain ⟨hq1, hq2, hq3⟩ := hq
  unfold code at h
  omega

theorem Canonical.size_lt_iff (hp : p.Canonical) (hq : q.Canonical) :
    p.size < q.size ↔ p.code < q.code := by
  refine ⟨fun h => ?_, hp.size_lt hq⟩
  rcases Int.lt_trichotomy p.code q.code with hlt | heq | hgt
  · exact hlt
  · obtain ⟨hexponent, hmantissa⟩ := hp.eq_of_code hq heq
    exact absurd h (by rw [size, size, hexponent, hmantissa]; exact lt_irrefl _)
  · exact absurd h (not_lt_of_gt (hq.size_lt hp hgt))

theorem Canonical.size_pos_iff (hp : p.Canonical) : 0 < p.size ↔ 0 < p.code := by
  have hzero : (⟨false, 0, -1074⟩ : Parts).Canonical := ⟨by decide, by decide, .inl rfl⟩
  have h := hzero.size_lt_iff hp
  simpa [size, code] using h

end Parts

/-! ## Parts and bits -/

/-- The bits below the sign. -/
def magnitude (x : Float) : Nat := x.toBits.toNat % 0x8000000000000000

theorem toBits_lt (x : Float) : x.toBits.toNat < 0x10000000000000000 := x.toBits.toNat_lt

theorem negative_parts (x : Float) : (parts x).negative = isNegative x := by
  unfold parts
  dsimp only
  split <;> rfl

theorem exponentBits_eq (x : Float) : exponentBits x = magnitude x / 0x10000000000000 := by
  unfold exponentBits magnitude
  omega

theorem canonical_parts (x : Float) : (parts x).Canonical := by
  unfold parts
  dsimp only
  split
  · exact ⟨by dsimp only; omega, Int.le_refl _, .inl rfl⟩
  · exact ⟨by dsimp only; omega, by dsimp only; omega, .inr (by dsimp only; omega)⟩

theorem code_parts (x : Float) : (parts x).code = magnitude x := by
  have hbits := exponentBits_eq x
  unfold parts Parts.code
  dsimp only
  split <;> dsimp only <;> unfold magnitude at * <;> omega

/-- The number that a decimal stands for. -/
def exact (x : Float) : ℚ := (parts x).exact

/-- The place of a decimal, counted from zero on. -/
def level (x : Float) : Int := if isNegative x then -magnitude x else magnitude x

theorem exact_eq (x : Float) :
    exact x = if isNegative x then -(parts x).size else (parts x).size := by
  rw [exact, Parts.exact, negative_parts]

/-! ## Order -/

variable {a b : Float}

/-- **Decimals come in the order of the numbers they stand for.** -/
theorem exact_lt_iff : exact a < exact b ↔ level a < level b := by
  have ha := canonical_parts a
  have hb := canonical_parts b
  have hsize := ha.size_lt_iff hb
  have hsize' := hb.size_lt_iff ha
  have hpos := ha.size_pos_iff
  have hpos' := hb.size_pos_iff
  have hnonneg := (parts a).size_nonneg
  have hnonneg' := (parts b).size_nonneg
  rw [code_parts] at hpos hpos'
  rw [code_parts, code_parts] at hsize hsize'
  rw [exact_eq, exact_eq]
  unfold level
  cases isNegative a <;> cases isNegative b <;>
    simp only [Bool.false_eq_true, if_true, if_false]
  case false.false => exact hsize
  case true.true =>
    rw [neg_lt_neg_iff]
    exact hsize'.trans (by omega)
  case false.true => exact iff_of_false (by linarith) (by omega)
  case true.false =>
    -- only two zeros are not in this order
    constructor
    · intro h
      by_contra hle
      have hzero : ¬0 < (parts a).size := fun h0 => by have := hpos.1 h0; omega
      have hzero' : ¬0 < (parts b).size := fun h0 => by have := hpos'.1 h0; omega
      linarith
    · intro h
      rcases Nat.eq_zero_or_pos (magnitude a) with h0 | h0
      · have := hpos'.2 (by omega)
        linarith
      · have := hpos.2 (by omega)
        linarith

theorem exact_le_iff : exact a ≤ exact b ↔ level a ≤ level b := by
  rw [← not_lt, exact_lt_iff, Int.not_lt]

theorem exact_eq_iff : exact a = exact b ↔ level a = level b := by
  rw [le_antisymm_iff, exact_le_iff, exact_le_iff, ← le_antisymm_iff]

theorem rank_eq (x : Float) : rank x = level x - if isNegative x then 1 else 0 := by
  have hbits := toBits_lt x
  unfold rank level isNegative magnitude
  dsimp only
  by_cases h : x.toBits.toNat < 0x8000000000000000
  · simp [h]
    omega
  · simp [h, Nat.le_of_not_lt h]
    omega

theorem level_nonpos (h : isNegative a = true) : level a ≤ 0 := by
  simp [level, h]

theorem level_nonneg (h : isNegative a = false) : 0 ≤ level a := by
  simp [level, h]

theorem rank_lt (h : exact a < exact b) : rank a < rank b := by
  rw [exact_lt_iff] at h
  rw [rank_eq, rank_eq]
  cases ha : isNegative a <;> cases hb : isNegative b <;>
    simp only [Bool.false_eq_true, if_true, if_false]
  case false.true =>
    have hnonneg := level_nonneg ha
    have hnonpos := level_nonpos hb
    omega
  all_goals omega

/-- **The total order is that of the numbers, and among zeros that of the signs.** -/
theorem order_eq (a b : Float) : order a b =
    (compare (exact a) (exact b)).then (compare (isNegative b) (isNegative a)) := by
  rw [order]
  rcases lt_trichotomy (exact a) (exact b) with h | h | h
  · rw [compare_lt_iff_lt.2 h, compare_lt_iff_lt.2 (rank_lt h)]
    rfl
  · rw [compare_eq_iff_eq.2 h, rank_eq, rank_eq, exact_eq_iff.1 h]
    cases isNegative a <;> cases isNegative b
    case true.false => exact compare_lt_iff_lt.2 (by simp)
    case false.true => exact compare_gt_iff_gt.2 (by simp)
    all_goals exact compare_eq_iff_eq.2 rfl
  · rw [compare_gt_iff_gt.2 h, compare_gt_iff_gt.2 (rank_lt h)]
    rfl

end Rulebook.Decimal
