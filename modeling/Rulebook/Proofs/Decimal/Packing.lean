import Rulebook.Proofs.Decimal.Exact

/-!
# Decimals unpacked and packed

A finite decimal is unpacked to its parts, and canonical parts whose exponent is in range are packed
to the decimal that has them:

    isFinite x  →  x.toModel.unpack = (parts x).unpacked
    p.Canonical,  p.exponent ≤ 971  →  parts ⟨pack p.unpacked⟩ = p

So finite decimals are compared as the numbers they stand for (`Parts.compare_unpacked`), and
negation changes the sign only.
-/

namespace Rulebook.Decimal

open Float.Model Float.Model.UnpackedFloat

variable {a b x : Float}

/-! ## Fields -/

theorem exponentBits_eq_unpack (x : Float) :
    exponentBits x = (@unpackExponent Format.binary64 x.toModel.toBits.toBitVec).toNat := by
  rw [unpackExponent, BitVec.toNat_cast, BitVec.extractLsb_toNat, Nat.shiftRight_eq_div_pow]
  rfl

theorem fraction_eq_unpack (x : Float) : x.toBits.toNat % 0x10000000000000 =
    (@unpackMantissa Format.binary64 x.toModel.toBits.toBitVec).toNat := by
  rw [unpackMantissa, BitVec.toNat_cast, BitVec.extractLsb_toNat, Nat.shiftRight_zero]
  rfl

theorem sign_eq_unpack (x : Float) : isNegative x =
    decide (@unpackSign Format.binary64 x.toModel.toBits.toBitVec = 1#1) := by
  have hbits := toBits_lt x
  have hsign : (@unpackSign Format.binary64 x.toModel.toBits.toBitVec).toNat =
      x.toBits.toNat / 0x8000000000000000 := by
    rw [unpackSign, BitVec.toNat_cast, BitVec.extractLsb_toNat, Nat.shiftRight_eq_div_pow]
    show x.toBits.toNat / 0x8000000000000000 % 2 = _
    omega
  rw [isNegative, Bool.eq_iff_iff, decide_eq_true_eq, decide_eq_true_eq, ← BitVec.toNat_inj, hsign]
  show _ ↔ _ = 1
  omega

/-! ## Unpacking -/

namespace Parts

def sign (negative : Bool) : Sign := if negative then .negative else .positive

/-- The parts that are kept in the fields of the bits. -/
def ofFields (negative : Bool) (e fraction : Nat) : Parts :=
  if e = 0 then ⟨negative, fraction, -1074⟩
  else ⟨negative, fraction + 0x10000000000000, (e : Int) - 1075⟩

/-- The parts as a number without bits. -/
def unpacked (p : Parts) : UnpackedFloat :=
  if h : p.mantissa = 0 then .zero (sign p.negative)
  else .finite (sign p.negative) p.mantissa p.exponent (Nat.pos_of_ne_zero h)

end Parts

theorem ofBitVec_sign (s : BitVec 1) : Sign.ofBitVec s = Parts.sign (decide (s = 1#1)) := by
  by_cases h : s = 1#1
  · subst h
    rfl
  · have hzero : s = 0#1 := by
      have := s.isLt
      rw [← BitVec.toNat_inj] at h ⊢
      simp at h ⊢
      omega
    subst hzero
    rfl

theorem toNat_implicit (m : BitVec 52) : (1#1 ++ m).toNat = m.toNat + 0x10000000000000 := by
  rw [BitVec.toNat_append, Nat.or_comm]
  show m.toNat ||| 2 ^ 52 = _
  exact Nat.or_two_pow_eq_add_of_lt m.isLt

theorem parts_eq_ofFields (x : Float) :
    parts x = .ofFields (@unpackSign Format.binary64 x.toModel.toBits.toBitVec = 1#1)
      (@unpackExponent Format.binary64 x.toModel.toBits.toBitVec).toNat
      (@unpackMantissa Format.binary64 x.toModel.toBits.toBitVec).toNat := by
  rw [← sign_eq_unpack, ← exponentBits_eq_unpack, ← fraction_eq_unpack]
  rfl

theorem unpack_eq (h : isFinite x = true) : x.toModel.unpack = (parts x).unpacked := by
  have hfinite : exponentBits x ≠ 2047 := bne_iff_ne.1 h
  rw [exponentBits_eq_unpack] at hfinite
  rw [parts_eq_ofFields]
  generalize hb : x.toModel.toBits.toBitVec = b at hfinite ⊢
  unfold Float.Model.unpack UnpackedFloat.unpack
  dsimp only
  rw [hb, ofBitVec_sign]
  have he : @unpackExponent Format.binary64 b ≠ -1#11 := by
    intro he
    exact hfinite (congrArg BitVec.toNat he)
  rw [if_neg he]
  by_cases h0 : @unpackExponent Format.binary64 b = 0#11
  · have hexponent : (@unpackExponent Format.binary64 b).toNat = 0 :=
      congrArg BitVec.toNat h0
    rw [if_pos h0, Parts.ofFields, if_pos hexponent, hexponent]
    by_cases hm : @unpackMantissa Format.binary64 b = 0#52
    · have hmantissa : (@unpackMantissa Format.binary64 b).toNat = 0 :=
        congrArg BitVec.toNat hm
      rw [dif_pos hm, Parts.unpacked, dif_pos hmantissa]
    · have hmantissa : (@unpackMantissa Format.binary64 b).toNat ≠ 0 :=
        fun h => hm (BitVec.eq_of_toNat_eq h)
      rw [dif_neg hm, Parts.unpacked, dif_neg hmantissa]
      rfl
  · have hexponent : (@unpackExponent Format.binary64 b).toNat ≠ 0 :=
      fun h => h0 (BitVec.eq_of_toNat_eq h)
    rw [if_neg h0, Parts.ofFields, if_neg hexponent, Parts.unpacked,
      dif_neg (Nat.succ_ne_zero _)]
    simp only [UnpackedFloat.finite.injEq, true_and]
    exact ⟨toNat_implicit _, rfl⟩

/-! ## Packing -/

theorem unpackSign_packComponents (s : Sign) (e : BitVec 11) (m : BitVec 52) :
    unpackSign (packComponents Format.binary64 s e m) = s.toBitVec := by
  show (s.toBitVec ++ e ++ m).extractLsb' 63 1 = s.toBitVec
  rw [BitVec.extractLsb'_append_eq_of_le (by decide),
    BitVec.extractLsb'_append_eq_of_le (by decide)]
  cases s <;> rfl

theorem sign_eq_one_iff (negative : Bool) :
    decide ((Parts.sign negative).toBitVec = 1#1) = negative := by
  cases negative <;> rfl

/-- The fields of a packed number are read back. -/
theorem parts_packComponents {u : UnpackedFloat} {negative : Bool} {e : BitVec 11} {m : BitVec 52}
    (h : UnpackedFloat.pack Format.binary64 u =
      packComponents Format.binary64 (Parts.sign negative) e m) :
    parts ⟨Float.Model.pack u⟩ = .ofFields negative e.toNat m.toNat := by
  rw [parts_eq_ofFields]
  show Parts.ofFields (unpackSign (UnpackedFloat.pack Format.binary64 u) = 1#1)
    (unpackExponent (UnpackedFloat.pack Format.binary64 u)).toNat
    (unpackMantissa (UnpackedFloat.pack Format.binary64 u)).toNat = _
  rw [h, unpackSign_packComponents, unpackExponent_packComponents, unpackMantissa_packComponents,
    sign_eq_one_iff]

theorem isFinite_iff : isFinite x = true ↔ (parts x).exponent ≤ 971 := by
  have hbits : exponentBits x < 0x800 := Nat.mod_lt _ (by decide)
  rw [isFinite, bne_iff_ne]
  unfold parts
  dsimp only
  split
  · next h => simp [h]
  · dsimp only
    omega

theorem log2_eq_iff {m : Nat} (h : m < 2 ^ 53) : m.log2 + 1 = 53 ↔ 2 ^ 52 ≤ m := by
  by_cases h0 : m = 0
  · subst h0
    decide
  · rw [Nat.succ_inj, Nat.log2_eq_iff h0]
    exact ⟨And.left, fun hle => ⟨hle, h⟩⟩

theorem pack_normal {s : Sign} {m : Nat} {e : Int} (hpos : 0 < m) (hm : 2 ^ 52 ≤ m)
    (hm' : m < 2 ^ 53) (he : e ≤ 971) :
    UnpackedFloat.pack Format.binary64 (.finite s m e hpos) =
      packComponents Format.binary64 s (BitVec.ofNat 11 (e + 1023 + 52).toNat)
        (BitVec.ofNat 52 m) := by
  have hrange : ¬2 ^ 11 ≤ (e + Format.binary64.exponentBias + (52 : Nat)).toNat + 1 := by
    show ¬2 ^ 11 ≤ (e + 1023 + 52).toNat + 1
    omega
  unfold UnpackedFloat.pack
  dsimp only
  rw [if_neg hrange]
  exact if_pos ((log2_eq_iff hm').2 hm)

theorem pack_subnormal {s : Sign} {m : Nat} (hpos : 0 < m) (hm : m < 2 ^ 52) :
    UnpackedFloat.pack Format.binary64 (.finite s m (-1074) hpos) =
      packComponents Format.binary64 s 0#11 (BitVec.ofNat 52 m) := by
  have hlog : ¬m.log2 + 1 = 53 := by
    rw [log2_eq_iff (by omega)]
    omega
  unfold UnpackedFloat.pack
  dsimp only
  rw [if_neg (by decide)]
  exact if_neg hlog

/-- **Parts in range are packed.** -/
theorem parts_pack {p : Parts} (hp : p.Canonical) (hrange : p.exponent ≤ 971) :
    parts ⟨Float.Model.pack p.unpacked⟩ = p := by
  obtain ⟨negative, m, e⟩ := p
  obtain ⟨hm, he, hnormal⟩ := hp
  dsimp only at hm he hnormal hrange
  unfold Parts.unpacked
  dsimp only
  by_cases h0 : m = 0
  · rw [dif_pos h0]
    have hexponent : e = -1074 := hnormal.resolve_right (by omega)
    subst h0 hexponent
    exact parts_packComponents (e := 0#11) (m := 0#52) rfl
  · rw [dif_neg h0]
    have hpos : 0 < m := Nat.pos_of_ne_zero h0
    by_cases hlow : m < 2 ^ 52
    · have hexponent : e = -1074 := hnormal.resolve_right (by omega)
      subst hexponent
      rw [parts_packComponents (pack_subnormal hpos hlow), BitVec.toNat_ofNat, BitVec.toNat_ofNat,
        Nat.mod_eq_of_lt hlow]
      rfl
    · have hlow' := Nat.le_of_not_lt hlow
      rw [parts_packComponents (pack_normal hpos hlow' hm hrange), BitVec.toNat_ofNat,
        BitVec.toNat_ofNat, Parts.ofFields, if_neg (by omega), Parts.mk.injEq]
      refine ⟨rfl, ?_, ?_⟩ <;> omega

/-! ## Negation -/

/-- The parts with the other sign. -/
def Parts.negate (p : Parts) : Parts := { p with negative := !p.negative }

theorem Parts.Canonical.negate {p : Parts} (h : p.Canonical) : p.negate.Canonical :=
  ⟨h.mantissa_lt, h.least_exponent, h.normal⟩

theorem unpacked_neg (p : Parts) : p.unpacked.neg = p.negate.unpacked := by
  obtain ⟨negative, m, e⟩ := p
  unfold Parts.negate Parts.unpacked
  dsimp only
  cases negative <;> by_cases h0 : m = 0 <;> simp only [h0, dif_pos, dif_neg, not_false_iff] <;> rfl

/-- Negation changes the sign. -/
theorem parts_neg (h : isFinite x = true) : parts (-x) = (parts x).negate := by
  have hneg : -x = ⟨Float.Model.pack (parts x).negate.unpacked⟩ := by
    rw [← unpacked_neg, ← unpack_eq h]
    rfl
  rw [hneg, parts_pack (canonical_parts x).negate (isFinite_iff.1 h)]

theorem isFinite_neg (h : isFinite x = true) : isFinite (-x) = true := by
  rw [isFinite_iff, parts_neg h]
  exact isFinite_iff.1 h

theorem exact_neg (h : isFinite x = true) : exact (-x) = -exact x := by
  rw [exact, exact, parts_neg h]
  unfold Parts.exact Parts.negate Parts.size
  cases (parts x).negative <;> simp

theorem isNegative_neg (h : isFinite x = true) : isNegative (-x) = !isNegative x := by
  rw [← negative_parts, parts_neg h, ← negative_parts]
  rfl

/-! ## Comparison -/

namespace Parts

variable {p q : Parts}

/-- Of canonical parts the exponents are compared first. -/
theorem Canonical.compare_eq (hp : p.Canonical) (hq : q.Canonical) :
    (compare p.exponent q.exponent).then (compare p.mantissa q.mantissa) =
      compare p.size q.size := by
  rcases Int.lt_trichotomy p.code q.code with h | h | h
  · rw [compare_lt_iff_lt.2 (hp.size_lt hq h)]
    rcases hp.code_lt hq h with ⟨hexponent, -⟩ | ⟨hexponent, hmantissa⟩
    · rw [compare_lt_iff_lt.2 hexponent]
      rfl
    · rw [compare_eq_iff_eq.2 hexponent, compare_lt_iff_lt.2 hmantissa]
      rfl
  · obtain ⟨hexponent, hmantissa⟩ := hp.eq_of_code hq h
    rw [compare_eq_iff_eq.2 hexponent, compare_eq_iff_eq.2 hmantissa, size, size, hexponent,
      hmantissa, compare_eq_iff_eq.2 rfl]
    rfl
  · rw [compare_gt_iff_gt.2 (hq.size_lt hp h)]
    rcases hq.code_lt hp h with ⟨hexponent, -⟩ | ⟨hexponent, hmantissa⟩
    · rw [compare_gt_iff_gt.2 hexponent]
      rfl
    · rw [compare_eq_iff_eq.2 hexponent.symm, compare_gt_iff_gt.2 hmantissa]
      rfl

theorem size_of_mantissa_zero (h : p.mantissa = 0) : p.size = 0 := by
  rw [size, h, Nat.cast_zero, zero_mul]

theorem size_pos (h : p.mantissa ≠ 0) : 0 < p.size :=
  mul_pos (Nat.cast_pos.2 (Nat.pos_of_ne_zero h)) (zpow_pos (by norm_num) _)

theorem swap_compare (x y : ℚ) : (compare x y).swap = compare (-x) (-y) := by
  rcases lt_trichotomy x y with h | h | h
  · rw [compare_lt_iff_lt.2 h, compare_gt_iff_gt.2 (neg_lt_neg h)]
    rfl
  · rw [h, compare_eq_iff_eq.2 rfl, compare_eq_iff_eq.2 rfl]
    rfl
  · rw [compare_gt_iff_gt.2 h, compare_lt_iff_lt.2 (neg_lt_neg h)]
    rfl

/-- Canonical parts are compared as the numbers they stand for. -/
theorem compare_unpacked (hp : p.Canonical) (hq : q.Canonical) :
    p.unpacked.compare q.unpacked = some (compare p.exact q.exact) := by
  have hsize := hp.compare_eq hq
  unfold unpacked exact
  by_cases hp0 : p.mantissa = 0 <;> by_cases hq0 : q.mantissa = 0
  · rw [dif_pos hp0, dif_pos hq0, size_of_mantissa_zero hp0, size_of_mantissa_zero hq0]
    cases p.negative <;> cases q.negative <;>
      exact congrArg some (compare_eq_iff_eq.2 (by simp)).symm
  · have hq' := size_pos hq0
    rw [dif_pos hp0, dif_neg hq0, size_of_mantissa_zero hp0]
    cases p.negative <;> cases q.negative
    case false.false | true.false =>
      exact congrArg some (compare_lt_iff_lt.2 (by simpa using hq')).symm
    case false.true | true.true =>
      exact congrArg some (compare_gt_iff_gt.2 (by simpa using hq')).symm
  · have hp' := size_pos hp0
    rw [dif_neg hp0, dif_pos hq0, size_of_mantissa_zero hq0]
    cases p.negative <;> cases q.negative
    case false.false | false.true =>
      exact congrArg some (compare_gt_iff_gt.2 (by simpa using hp')).symm
    case true.false | true.true =>
      exact congrArg some (compare_lt_iff_lt.2 (by simpa using hp')).symm
  · have hp' := size_pos hp0
    have hq' := size_pos hq0
    rw [dif_neg hp0, dif_neg hq0]
    cases p.negative <;> cases q.negative
    case false.false => exact congrArg some hsize
    case false.true =>
      have h : -q.size < p.size := by linarith
      exact congrArg some (compare_gt_iff_gt.2 h).symm
    case true.false =>
      have h : -p.size < q.size := by linarith
      exact congrArg some (compare_lt_iff_lt.2 h).symm
    case true.true =>
      have hswap := congrArg Ordering.swap hsize
      rw [swap_compare] at hswap
      exact congrArg some hswap

end Parts

end Rulebook.Decimal
