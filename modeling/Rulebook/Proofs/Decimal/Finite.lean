import Rulebook.Decimal.Basic
import Mathlib

/-!
# Whole numbers as finite decimals

A decimal is packed from a sign, a mantissa and an exponent.  It is finite as long as the exponent
fits its eleven bits (`isFinite_pack_finite`), and rounding raises the exponent by no more than the
mantissa is too long (`exponent_shift_le`), with one more where the mantissa is rounded up to the
next power of two.  So the conversion of a large number does not end in an infinity:

    2 ^ 53 ≤ n,  n < 2 ^ 64   →   isFinite (ofNat n)

Below `2 ^ 53` nothing is rounded, and the conversion takes another way.
-/

namespace Rulebook.Decimal

open Float.Model Float.Model.UnpackedFloat

variable {s : Sign} {m n : Nat} {e bound : Int}

/-! ## Packing -/

theorem exponentBits_pack (u : UnpackedFloat) : exponentBits ⟨Float.Model.pack u⟩ =
    (unpackExponent (UnpackedFloat.pack Format.binary64 u)).toNat := by
  rw [unpackExponent, BitVec.toNat_cast, BitVec.extractLsb_toNat, Nat.shiftRight_eq_div_pow]
  rfl

theorem isFinite_pack_zero (s : Sign) : isFinite ⟨Float.Model.pack (.zero s)⟩ = true := by
  cases s <;> rfl

theorem isFinite_pack_finite (hm : 0 < m) (he : e ≤ 970) :
    isFinite ⟨Float.Model.pack (.finite s m e hm)⟩ = true := by
  have hbits : exponentBits ⟨Float.Model.pack (.finite s m e hm)⟩ ≠ 2047 := by
    rw [exponentBits_pack]
    unfold UnpackedFloat.pack
    dsimp only
    split
    · next h =>
      simp only [Format.exponentBias] at h
      omega
    · split
      · rw [unpackExponent_packComponents, BitVec.toNat_ofNat]
        omega
      · rw [unpackExponent_packComponents]
        decide
  exact bne_iff_ne.2 hbits

/-! ## Rounding -/

theorem mantissa_shiftRight (x : ExtendedMantissa) (k : Nat) :
    (x >>> k).mantissa = x.mantissa / 2 ^ k := by
  show (Nat.repeat ExtendedMantissa.shiftRightOne k x).mantissa = _
  induction k with
  | zero => rw [Nat.pow_zero, Nat.div_one]; rfl
  | succ k ih =>
    show (Nat.repeat ExtendedMantissa.shiftRightOne k x).mantissa / 2 = _
    rw [ih, Nat.div_div_eq_div_mul, Nat.pow_succ]

theorem roundedMantissa_le (x : ExtendedMantissa) : x.roundedMantissa ≤ x.mantissa + 1 := by
  obtain ⟨m, roundBit, stickyBit⟩ := x
  cases roundBit <;> cases stickyBit <;>
    simp only [ExtendedMantissa.roundedMantissa, ExtendedMantissa.accuracy,
      Accuracy.roundToNearestEven] <;> omega

/-- The exponent at which a mantissa has 53 bits, or the least one. -/
theorem targetExponent_eq (m : Nat) (e : Int) :
    Format.binary64.targetExponent (totalExponent m e) = max (m.log2 + e - 52) (-1074) := by
  simp only [Format.targetExponent, totalExponent, Format.minExponent, Format.mantissaBits]
  omega

theorem exponent_shift_le (he : e ≤ bound) (hbound : -1074 ≤ bound) (hm : m.log2 + e ≤ bound + 52) :
    (shiftToTargetExponent Format.binary64 m e .exact).2 ≤ bound := by
  simp only [shiftToTargetExponent, shiftToExponent, targetExponent_eq]
  omega

theorem mantissa_shift_lt (m : Nat) (e : Int) :
    (shiftToTargetExponent Format.binary64 m e .exact).1.mantissa < 2 ^ 53 := by
  simp only [shiftToTargetExponent, shiftToExponent, targetExponent_eq, mantissa_shiftRight]
  have hlog : m.log2 + 1 ≤ 53 + (max (m.log2 + e - 52) (-1074) - e).toNat := by omega
  rw [Nat.div_lt_iff_lt_mul (Nat.two_pow_pos _), ← Nat.pow_add]
  exact Nat.lt_of_lt_of_le Nat.lt_log2_self (Nat.pow_le_pow_right (by decide) hlog)

theorem log2_le_of_le (h : m ≤ 2 ^ 53) : m.log2 ≤ 53 := by
  by_cases hm : m = 0
  · rw [hm, Nat.log2_zero]
    omega
  · exact Nat.le_of_lt_succ ((Nat.log2_lt hm).2 (by omega))

/-- The mantissa is rounded at 53 bits, and shifted once more where that makes 54 of them. -/
theorem isFinite_pack_round (s : Sign) (he : e ≤ 969) (hm : m.log2 + e ≤ 1021) :
    isFinite ⟨Float.Model.pack (roundWithAccuracy Format.binary64 s m e .exact)⟩ = true := by
  have hmantissa := mantissa_shift_lt m e
  have hexponent := exponent_shift_le he (by decide) hm
  unfold roundWithAccuracy
  generalize shiftToTargetExponent Format.binary64 m e .exact = first at hmantissa hexponent ⊢
  obtain ⟨x, e'⟩ := first
  have hrounded := log2_le_of_le (Nat.le_trans (roundedMantissa_le x) hmantissa)
  dsimp only at hexponent ⊢
  split
  · exact isFinite_pack_zero s
  · exact isFinite_pack_finite _ (exponent_shift_le (by omega) (by decide) (by omega))

/-! ## Conversion -/

theorem ofScientific_eq (hn : n ≠ 0) : UnpackedFloat.ofScientific Format.binary64 n 0 =
    roundWithAccuracy Format.binary64 .positive (n <<< 53) (-53) .exact := by
  have hlow : ¬(0 : Int) < -(2 ^ 11 + n.log2) := by omega
  simp only [UnpackedFloat.ofScientific, dif_neg hn]
  rw [if_neg (by decide), if_neg hlow, if_pos (Int.le_refl 0)]
  show roundWithAccuracy Format.binary64 .positive (n <<< 53 * 1) (-53 + 0) .exact = _
  rw [Nat.mul_one, Int.add_zero]

theorem ofNat_eq (hlow : 2 ^ 53 ≤ n) : ofNat n =
    ⟨Float.Model.pack (roundWithAccuracy Format.binary64 .positive (n <<< 53) (-53) .exact)⟩ := by
  show Float.ofScientific n false 0 = _
  rw [Float.ofScientific, dif_neg (by omega), ← ofScientific_eq (by omega)]
  rfl

theorem log2_shiftLeft_lt (hn : n ≠ 0) (k : Nat) : (n <<< k).log2 < n.log2 + 1 + k := by
  have hshift : n <<< k ≠ 0 := by
    rw [Nat.shiftLeft_eq]
    exact Nat.mul_ne_zero hn (Nat.ne_of_gt (Nat.two_pow_pos k))
  rw [Nat.log2_lt hshift, Nat.shiftLeft_eq, Nat.pow_add]
  exact Nat.mul_lt_mul_of_pos_right Nat.lt_log2_self (Nat.two_pow_pos k)

theorem isFinite_ofNat (hlow : 2 ^ 53 ≤ n) (hhigh : n < 2 ^ 64) :
    isFinite (ofNat n) = true := by
  have hne : n ≠ 0 := by omega
  have hlog : n.log2 < 64 := (Nat.log2_lt hne).2 hhigh
  have hshift := log2_shiftLeft_lt hne 53
  rw [ofNat_eq hlow]
  exact isFinite_pack_round .positive (by decide) (by omega)

end Rulebook.Decimal
