import Rulebook.Proofs.Decimal.Arithmetic

/-!
# The order of decimals

Infinities have parts as well, those of the canonical numbers after the greatest decimals.  So all
decimals but NaN are compared as the numbers that their parts stand for:

    isNaN a = false,  isNaN b = false  →  (a ≤ b ↔ exact a ≤ exact b)

NaN is not compared with anything.  Of the decimals nearest to two numbers, the greater belongs to
the greater number (`IsNearest.mono_le`), for no two decimals are nearest to the same number.
-/

namespace Rulebook.Decimal

open Float.Model Float.Model.UnpackedFloat

variable {a b x y : Float} {q q' : ℚ}

/-! ## Unpacking -/

theorem unpack_of_not_finite (h : isFinite x = false) : x.toModel.unpack =
    if isNaN x then .notANumber else .infinity (Parts.sign (isNegative x)) := by
  have hexponent : exponentBits x = 2047 := by simpa [isFinite] using h
  rw [isNaN, h, fraction_eq_unpack, sign_eq_unpack]
  rw [exponentBits_eq_unpack] at hexponent
  generalize hb : x.toModel.toBits.toBitVec = b at hexponent ⊢
  unfold Float.Model.unpack UnpackedFloat.unpack
  dsimp only
  have he : @unpackExponent Format.binary64 b = -1#11 := BitVec.eq_of_toNat_eq hexponent
  rw [hb, ofBitVec_sign, if_pos he]
  by_cases hm : @unpackMantissa Format.binary64 b = 0#52
  · have hmantissa : (@unpackMantissa Format.binary64 b).toNat = 0 := congrArg BitVec.toNat hm
    rw [if_pos hm, hmantissa]
    rfl
  · have hmantissa : (@unpackMantissa Format.binary64 b).toNat ≠ 0 :=
      fun h => hm (BitVec.eq_of_toNat_eq h)
    have hnan : (!false && (@unpackMantissa Format.binary64 b).toNat != 0) = true := by
      rw [bne_iff_ne.2 hmantissa]
      rfl
    rw [if_neg hm, if_pos hnan]

theorem unpack_of_isNaN (h : isNaN x = true) : x.toModel.unpack = .notANumber := by
  have hfinite : isFinite x = false := by
    rw [isNaN, Bool.and_eq_true, Bool.not_eq_true'] at h
    exact h.1
  rw [unpack_of_not_finite hfinite, if_pos h]

theorem isNaN_of_isFinite (h : isFinite x = true) : isNaN x = false := by
  rw [isNaN, h]
  rfl

/-- The parts of an infinity. -/
theorem parts_of_infinite (h : isFinite x = false) (hnan : isNaN x = false) :
    parts x = ⟨isNegative x, 2 ^ 52, 972⟩ := by
  have hexponent : exponentBits x = 2047 := by simpa [isFinite] using h
  have hfraction : x.toBits.toNat % 0x10000000000000 = 0 := by simpa [isNaN, h] using hnan
  unfold parts
  dsimp only
  rw [hexponent, hfraction, if_neg (by decide)]
  rfl

/-! ## Comparison -/

theorem abs_exact (x : Float) : |exact x| = (parts x).size := by
  have hnonneg := (parts x).size_nonneg
  rw [exact_eq]
  split
  · rw [abs_neg, abs_of_nonneg hnonneg]
  · rw [abs_of_nonneg hnonneg]

theorem abs_exact_lt (h : isFinite x = true) : |exact x| < outOfRange := by
  have hplace := halfPlace_pos
  have hsize := (canonical_parts x).size_le_greatest (isFinite_iff.1 h)
  have hgreatest : Parts.greatest.size = (2 ^ 54 - 2) * halfPlace := Parts.exact_greatest
  rw [abs_exact, outOfRange]
  linarith

theorem outOfRange_lt : outOfRange < 2 ^ 54 * halfPlace := by
  have hplace := halfPlace_pos
  unfold outOfRange
  linarith

theorem exact_of_infinite (h : isFinite x = false) (hnan : isNaN x = false) :
    exact x = if isNegative x then -(2 ^ 54 * halfPlace) else 2 ^ 54 * halfPlace := by
  have hsize : (⟨isNegative x, 2 ^ 52, 972⟩ : Parts).size = 2 ^ 54 * halfPlace :=
    Parts.exact_afterGreatest
  rw [exact_eq, parts_of_infinite h hnan, hsize]

theorem compare_unpack (ha : isNaN a = false) (hb : isNaN b = false) :
    a.toModel.unpack.compare b.toModel.unpack = some (compare (exact a) (exact b)) := by
  have hplace := halfPlace_pos
  cases hfa : isFinite a <;> cases hfb : isFinite b
  case true.true =>
    rw [unpack_eq hfa, unpack_eq hfb]
    exact Parts.compare_unpacked (canonical_parts a) (canonical_parts b)
  case false.false =>
    rw [unpack_of_not_finite hfa, unpack_of_not_finite hfb, ha, hb, exact_of_infinite hfa ha,
      exact_of_infinite hfb hb]
    cases isNegative a <;> cases isNegative b
    case false.true => exact congrArg some (compare_gt_iff_gt.2 (by simp; linarith)).symm
    case true.false => exact congrArg some (compare_lt_iff_lt.2 (by simp; linarith)).symm
    all_goals exact congrArg some (compare_eq_iff_eq.2 rfl).symm
  case false.true =>
    obtain ⟨hlow, hhigh⟩ := abs_lt.1 ((abs_exact_lt hfb).trans outOfRange_lt)
    rw [unpack_of_not_finite hfa, ha, unpack_eq hfb, exact_of_infinite hfa ha]
    rcases (parts b).cases_unpacked with ⟨-, -, hb'⟩ | ⟨_, hb'⟩ <;> rw [hb'] <;>
      cases isNegative a
    case inl.false | inr.false => exact congrArg some (compare_gt_iff_gt.2 hhigh).symm
    case inl.true | inr.true => exact congrArg some (compare_lt_iff_lt.2 hlow).symm
  case true.false =>
    obtain ⟨hlow, hhigh⟩ := abs_lt.1 ((abs_exact_lt hfa).trans outOfRange_lt)
    rw [unpack_of_not_finite hfb, hb, unpack_eq hfa, exact_of_infinite hfb hb]
    rcases (parts a).cases_unpacked with ⟨-, -, ha'⟩ | ⟨_, ha'⟩ <;> rw [ha'] <;>
      cases isNegative b
    case inl.false | inr.false => exact congrArg some (compare_lt_iff_lt.2 hhigh).symm
    case inl.true | inr.true => exact congrArg some (compare_gt_iff_gt.2 hlow).symm

/-- **Decimals are compared as the numbers of their parts.** -/
theorem le_iff_exact (ha : isNaN a = false) (hb : isNaN b = false) :
    a ≤ b ↔ exact a ≤ exact b := by
  have hle : a ≤ b ↔ Option.any (·.isLE) (a.toModel.unpack.compare b.toModel.unpack) = true :=
    decide_eq_true_iff
  rw [hle, compare_unpack ha hb]
  exact Ordering.isLE_iff_ne_gt.trans compare_le_iff_le

theorem lt_iff_exact (ha : isNaN a = false) (hb : isNaN b = false) :
    a < b ↔ exact a < exact b := by
  have hlt : a < b ↔ (a.toModel.unpack.compare b.toModel.unpack == some .lt) = true :=
    decide_eq_true_iff
  rw [hlt, compare_unpack ha hb, beq_iff_eq, Option.some_inj, compare_lt_iff_lt]

/-- Finite decimals are compared as the numbers they stand for. -/
theorem le_iff (ha : isFinite a = true) (hb : isFinite b = true) : a ≤ b ↔ exact a ≤ exact b :=
  le_iff_exact (isNaN_of_isFinite ha) (isNaN_of_isFinite hb)

theorem isNaN_infinite : isNaN (Float.ofBits 0x7FF0000000000000) = false := by decide +kernel

/-- Nothing is greater than infinity. -/
theorem le_infinite (h : isNaN x = false) : x ≤ Float.ofBits 0x7FF0000000000000 := by
  have hfinite : isFinite (Float.ofBits 0x7FF0000000000000) = false := by decide +kernel
  have hnegative : isNegative (Float.ofBits 0x7FF0000000000000) = false := by decide +kernel
  rw [le_iff_exact h isNaN_infinite, exact_of_infinite hfinite isNaN_infinite, hnegative,
    if_neg Bool.false_ne_true]
  by_cases hx : isFinite x = true
  · exact ((abs_lt.1 (abs_exact_lt hx)).2.trans outOfRange_lt).le
  · have hplace := halfPlace_pos
    rw [exact_of_infinite (Bool.eq_false_iff.2 hx) h]
    split <;> linarith

theorem not_le_of_isNaN (h : isNaN a = true ∨ isNaN b = true) : ¬a ≤ b := by
  have hle : a ≤ b ↔ Option.any (·.isLE) (a.toModel.unpack.compare b.toModel.unpack) = true :=
    decide_eq_true_iff
  rw [hle]
  rcases h with h | h
  · rw [unpack_of_isNaN h]
    exact Bool.false_ne_true
  · rw [unpack_of_isNaN h]
    cases a.toModel.unpack <;> exact Bool.false_ne_true

/-- What is compared is no NaN. -/
theorem isNaN_of_le (h : a ≤ b) : isNaN a = false ∧ isNaN b = false := by
  constructor
  · by_contra hnan
    exact not_le_of_isNaN (.inl (Bool.not_eq_false _ ▸ hnan)) h
  · by_contra hnan
    exact not_le_of_isNaN (.inr (Bool.not_eq_false _ ▸ hnan)) h

theorem le_trans' {c : Float} (hab : a ≤ b) (hbc : b ≤ c) : a ≤ c := by
  obtain ⟨ha, hb⟩ := isNaN_of_le hab
  obtain ⟨-, hc⟩ := isNaN_of_le hbc
  rw [le_iff_exact ha hb] at hab
  rw [le_iff_exact hb hc] at hbc
  exact (le_iff_exact ha hc).2 (hab.trans hbc)

/-! ## Size -/

theorem unpacked_abs (p : Parts) :
    p.unpacked.abs = (⟨false, p.mantissa, p.exponent⟩ : Parts).unpacked := by
  by_cases h0 : p.mantissa = 0
  · rw [Parts.unpacked, dif_pos h0, Parts.unpacked, dif_pos h0]
    rfl
  · rw [Parts.unpacked, dif_neg h0, Parts.unpacked, dif_neg h0]
    rfl

theorem parts_abs (h : isFinite x = true) :
    parts x.abs = ⟨false, (parts x).mantissa, (parts x).exponent⟩ := by
  have habs : x.abs = ⟨Float.Model.pack (parts x).unpacked.abs⟩ := by
    rw [← unpack_eq h]
    rfl
  have hp := canonical_parts x
  rw [habs, unpacked_abs]
  exact parts_pack ⟨hp.mantissa_lt, hp.least_exponent, hp.normal⟩ (isFinite_iff.1 h)

theorem isFinite_abs (h : isFinite x = true) : isFinite x.abs = true := by
  rw [isFinite_iff, parts_abs h]
  exact isFinite_iff.1 h

theorem exact_abs (h : isFinite x = true) : exact x.abs = |exact x| := by
  rw [exact, parts_abs h, abs_exact]
  rfl

theorem exact_larger (ha : isFinite a = true) (hb : isFinite b = true) :
    isFinite (larger a b) = true ∧ exact (larger a b) = max (exact a) (exact b) := by
  have ha' := isNaN_of_isFinite ha
  have hb' := isNaN_of_isFinite hb
  rw [larger, ha', hb']
  simp only [Bool.false_eq_true, if_false]
  by_cases h : a < b
  · rw [if_pos h]
    exact ⟨hb, (max_eq_right ((lt_iff_exact ha' hb').1 h).le).symm⟩
  · rw [if_neg h]
    exact ⟨ha, (max_eq_left (not_lt.1 (mt (lt_iff_exact ha' hb').2 h))).symm⟩

/-! ## Nearest decimals in order -/

/-- What a decimal stands for is not changed by rounding. -/
theorem Rounded.exact_eq (h : Rounded q x) (hy : isFinite y = true) (hq : exact y = q) :
    isFinite x = true ∧ exact x = q := by
  have hx : isFinite x = true := h.isFinite_iff.2 (hq ▸ abs_exact_lt hy)
  exact ⟨hx, (h.isNearest hx).exact_eq hy hq⟩

namespace IsNearest

theorem le (h : IsNearest q x) (hy : isFinite y = true) (hle : q ≤ exact y) :
    exact x ≤ exact y := by
  rcases hle.lt_or_eq with hlt | heq
  · exact h.mono (.self hy) hlt
  · exact ((h.exact_eq hy heq.symm).trans heq).le

theorem ge (h : IsNearest q x) (hy : isFinite y = true) (hle : exact y ≤ q) :
    exact y ≤ exact x := by
  rcases hle.lt_or_eq with hlt | heq
  · exact (IsNearest.self hy).mono h hlt
  · exact (heq.trans (h.exact_eq hy heq).symm).le

end IsNearest

theorem mul_two_pow_div (n d k : ℕ) : ((n * 2 ^ k : ℕ) : ℚ) / d * 2 ^ (-(k : ℤ)) = n / d := by
  rw [zpow_neg, zpow_natCast]
  push_cast
  field_simp

/-- Every number is rounded to some decimal. -/
theorem exists_rounded (q : ℚ) : ∃ x, Rounded q x := by
  have hvalue : q = Parts.withSign (decide (q.num < 0))
      ((q.num.natAbs * 2 ^ 1074 : ℕ) / q.den * 2 ^ (-1074 : ℤ)) := by
    have hsize : ((q.num.natAbs * 2 ^ 1074 : ℕ) : ℚ) / q.den * 2 ^ (-1074 : ℤ) =
        q.num.natAbs / q.den := mul_two_pow_div q.num.natAbs q.den 1074
    rw [hsize, Parts.withSign]
    conv_lhs => rw [← Rat.num_div_den q]
    by_cases h0 : q.num < 0
    · have hnum : (q.num : ℚ) = -(q.num.natAbs : ℚ) := by
        rw [← Int.cast_natCast, Int.ofNat_natAbs_of_nonpos h0.le]
        push_cast
        ring
      rw [if_pos (decide_eq_true h0), hnum, neg_div]
    · have hnum : (q.num : ℚ) = (q.num.natAbs : ℚ) := by
        rw [← Int.cast_natCast, Int.natAbs_of_nonneg (not_lt.1 h0)]
      rw [if_neg (by simpa using h0), hnum]
  obtain ⟨p, hp, -⟩ := exists_rounds_fraction (decide (q.num < 0))
    (n := q.num.natAbs * 2 ^ 1074) (e := -1074) q.den_pos (le_max_right _ _)
  exact ⟨_, p, hvalue ▸ hp, rfl⟩

namespace IsNearest

/-- A nearest decimal is off by half of the last place at most. -/
theorem error (h : IsNearest q x) (hq : |q| < outOfRange) :
    |exact x - q| ≤ |q| / 2 ^ 53 + 2 ^ (-1075 : ℤ) := by
  obtain ⟨y, hy⟩ := exists_rounded q
  have hfinite := hy.isFinite_iff.2 hq
  exact (h.nearest y hfinite).trans (hy.error hfinite)

theorem exact_of_outOfRange (h : IsNearest q x) (hq : outOfRange ≤ q) :
    exact x = (2 ^ 54 - 2) * halfPlace := by
  have hplace := halfPlace_pos
  have hparts := parts_pack Parts.canonical_greatest (by decide)
  generalize (⟨Float.Model.pack Parts.greatest.unpacked⟩ : Float) = y at hparts
  have hy : exact y = (2 ^ 54 - 2) * halfPlace := by rw [exact, hparts, Parts.exact_greatest]
  have hyfinite : isFinite y = true := isFinite_iff.2 (hparts ▸ (by decide))
  refine le_antisymm ?_ ?_
  · have hsize := (canonical_parts x).size_le_greatest (isFinite_iff.1 h.finite)
    calc exact x ≤ (parts x).size := (parts x).exact_le_size
      _ ≤ (2 ^ 54 - 2) * halfPlace := hsize.trans_eq Parts.exact_greatest
  · rw [← hy]
    refine h.ge hyfinite ?_
    rw [hy]
    unfold outOfRange at hq
    linarith

/-- What is nearest to a number out of range is whole. -/
theorem exists_int_of_outOfRange (h : IsNearest q x) (hq : outOfRange ≤ |q|) :
    ∃ n : ℤ, exact x = n := by
  obtain ⟨m, hm⟩ : ∃ m : ℤ, halfPlace = m := by
    refine ⟨2 ^ 970, ?_⟩
    rw [halfPlace, Int.cast_pow]
    rfl
  obtain ⟨n, hn⟩ : ∃ n : ℤ, (2 ^ 54 - 2) * halfPlace = n := by
    refine ⟨(2 ^ 54 - 2) * m, ?_⟩
    rw [hm]
    push_cast
    ring
  rcases le_abs.1 hq with hpos | hneg
  · exact ⟨n, (h.exact_of_outOfRange hpos).trans hn⟩
  · refine ⟨-n, ?_⟩
    have hexact := h.neg.exact_of_outOfRange hneg
    rw [exact_neg h.finite, hn] at hexact
    rw [Int.cast_neg, ← hexact, neg_neg]

end IsNearest

/-- There is a decimal at every place. -/
theorem exists_level {n : Int} (hn : n.natAbs < 2047 * 2 ^ 52) :
    ∃ y, isFinite y = true ∧ level y = n := by
  obtain ⟨p, hp⟩ : ∃ p : Parts,
      p = .ofFields (decide (n < 0)) (n.natAbs / 2 ^ 52) (n.natAbs % 2 ^ 52) := ⟨_, rfl⟩
  have hfields : p.Canonical ∧ p.exponent ≤ 971 ∧ p.code = n.natAbs ∧
      p.negative = decide (n < 0) := by
    subst hp
    unfold Parts.ofFields Parts.code
    split
    · exact ⟨⟨by dsimp only; omega, by dsimp only; omega, .inl rfl⟩, by dsimp only; omega,
        by dsimp only; omega, rfl⟩
    · exact ⟨⟨by dsimp only; omega, by dsimp only; omega, .inr (by dsimp only; omega)⟩,
        by dsimp only; omega, by dsimp only; omega, rfl⟩
  obtain ⟨hcanonical, hrange, hcode, hnegative⟩ := hfields
  have hparts := parts_pack hcanonical hrange
  generalize (⟨Float.Model.pack p.unpacked⟩ : Float) = y at hparts
  refine ⟨y, isFinite_iff.2 (hparts ▸ hrange), ?_⟩
  have hmagnitude : (magnitude y : Int) = n.natAbs := by rw [← code_parts, hparts, hcode]
  rw [level, ← negative_parts, hparts, hnegative, hmagnitude]
  by_cases h0 : n < 0
  · rw [if_pos (decide_eq_true h0)]
    omega
  · rw [if_neg (by simpa using h0)]
    omega

theorem magnitude_lt (h : isFinite x = true) : magnitude x < 2047 * 2 ^ 52 := by
  have hexponent := exponentBits_eq x
  have hbits : exponentBits x ≠ 2047 := bne_iff_ne.1 h
  have hlt : exponentBits x < 0x800 := Nat.mod_lt _ (by decide)
  omega

theorem level_emod_two (x : Float) : level x % 2 = (parts x).mantissa % 2 := by
  have hcode := code_parts x
  unfold Parts.code at hcode
  unfold level
  split <;> omega

namespace IsNearest

/-- Two decimals with even mantissas are not next to each other. -/
theorem le_of_isNearest (h : IsNearest q x) (h' : IsNearest q y) : exact y ≤ exact x := by
  by_contra hgt
  have hlt := not_le.1 hgt
  have htie : |exact y - q| = |exact x - q| :=
    le_antisymm (h'.nearest x h.finite) (h.nearest y h'.finite)
  have hx := h.even y h'.finite htie hlt.ne'
  have hy := h'.even x h.finite htie.symm hlt.ne
  have hlevel := exact_lt_iff.1 hlt
  have heven := level_emod_two x
  have heven' := level_emod_two y
  have hrange := magnitude_lt h.finite
  have hrange' := magnitude_lt h'.finite
  have hbetween : level x + 1 < level y := by omega
  have hlow : -(magnitude x : ℤ) ≤ level x := by unfold level; split <;> omega
  have hhigh : level y ≤ magnitude y := by unfold level; split <;> omega
  obtain ⟨z, hz, hzlevel⟩ := exists_level (n := level x + 1) (by omega)
  have hxz : exact x < exact z := exact_lt_iff.2 (by omega)
  have hzy : exact z < exact y := exact_lt_iff.2 (by omega)
  -- what lies between is nearer than both
  have hclose : |exact z - q| < |exact x - q| := by
    rcases abs_eq_abs.1 htie with heq | heq
    · linarith
    · rw [abs_lt]
      have hneg : exact x - q < 0 := by linarith
      rw [abs_of_neg hneg]
      constructor <;> linarith
  exact absurd (h.nearest z hz) (not_le.2 hclose)

/-- **Rounding keeps the order of numbers, equal ones included.** -/
theorem mono_le (h : IsNearest q x) (h' : IsNearest q' y) (hle : q ≤ q') : exact x ≤ exact y := by
  rcases hle.lt_or_eq with hlt | rfl
  · exact h.mono h' hlt
  · exact h'.le_of_isNearest h

end IsNearest

end Rulebook.Decimal
