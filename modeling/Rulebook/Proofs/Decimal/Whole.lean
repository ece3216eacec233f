import Rulebook.Proofs.Decimal.Order

/-!
# Decimals rounded to whole numbers

The roundings to whole numbers are computed on natural numbers, and are those of the numbers that
decimals stand for:

    exact (floor x) = ⌊exact x⌋
    exact (ceil x) = ⌈exact x⌉
    |exact x - exact (round x)| ≤ 1 / 2

A whole number in the range of 64-bit integers is kept by the cast to them (`toInt_toInt64`).
-/

namespace Rulebook.Decimal

open Parts

variable {x : Float}

/-! ## Magnitudes -/

namespace Parts

variable {p : Parts}

theorem size_of_nonneg (h : 0 ≤ p.exponent) : p.size = p.whole := by
  have hscale : (2 : ℚ) ^ p.exponent = 2 ^ p.exponent.toNat := by
    rw [← zpow_natCast, Int.toNat_of_nonneg h]
  rw [size, whole, if_pos h, hscale]
  show _ = ((p.mantissa * 2 ^ p.exponent.toNat : ℕ) : ℚ)
  push_cast
  rfl

/-- What follows the point. -/
theorem exists_fraction (h : p.exponent < 0) : ∃ f : ℚ, 0 ≤ f ∧ f < 1 ∧ p.size = p.whole + f ∧
    (p.isWhole = true ↔ f = 0) ∧ p.nearest = if 1 / 2 ≤ f then p.whole + 1 else p.whole := by
  obtain ⟨k, hk⟩ : ∃ k, k = (-p.exponent).toNat := ⟨_, rfl⟩
  have hneg : ¬0 ≤ p.exponent := by omega
  obtain ⟨d, hd⟩ : ∃ d, d = 2 ^ k := ⟨_, rfl⟩
  have hd0 : 0 < d := hd ▸ Nat.two_pow_pos k
  have hd' : (0 : ℚ) < d := Nat.cast_pos.2 hd0
  have hrest : p.mantissa % d < d := Nat.mod_lt _ hd0
  have hsplit : d * (p.mantissa / d) + p.mantissa % d = p.mantissa := Nat.div_add_mod _ _
  have hwhole : p.whole = p.mantissa / d := by rw [whole, if_neg hneg, ← hk, hd]; rfl
  have hsize : p.size = p.mantissa / d := by
    have hexponent : p.exponent = -(k : ℤ) := by omega
    rw [size, hexponent, zpow_neg, zpow_natCast, hd]
    push_cast
    exact (div_eq_mul_inv _ _).symm
  have hhalf : (1 / 2 : ℚ) ≤ (p.mantissa % d : ℕ) / d ↔ d ≤ 2 * (p.mantissa % d) := by
    rw [le_div_iff₀ hd', ← Nat.cast_le (α := ℚ)]
    push_cast
    constructor <;> intro <;> linarith
  refine ⟨(p.mantissa % d : ℕ) / d, by positivity, ?_, ?_, ?_, ?_⟩
  · rw [div_lt_one hd']
    exact_mod_cast hrest
  · have hcast : (p.mantissa : ℚ) = d * (p.mantissa / d : ℕ) + (p.mantissa % d : ℕ) := by
      exact_mod_cast hsplit.symm
    rw [hsize, hwhole, hcast, add_div, mul_div_cancel_left₀ _ hd'.ne']
  · rw [isWhole, decide_eq_false hneg, Bool.false_or, beq_iff_eq, ← hk, div_eq_zero_iff,
      or_iff_left hd'.ne', Nat.cast_eq_zero, hd]
    rfl
  · have hnearest : p.nearest = (2 * p.mantissa + d) / (2 * d) := by
      rw [nearest, if_neg hneg, ← hk, hd, ← Nat.pow_succ']
      rfl
    have hnumerator : 2 * p.mantissa + d =
        2 * (p.mantissa % d) + d + 2 * d * (p.mantissa / d) := by
      rw [Nat.mul_assoc]
      omega
    rw [hnearest, hwhole, hnumerator, Nat.add_mul_div_left _ _ (by omega)]
    simp only [hhalf]
    split
    · next hle =>
      rw [Nat.div_eq_of_lt_le (k := 1) (by omega) (by omega), Nat.add_comm]
    · rw [Nat.div_eq_of_lt (by omega), Nat.zero_add]

theorem Canonical.whole_lt (hp : p.Canonical) (h : p.exponent < 0) : p.whole + 1 ≤ 2 ^ 53 := by
  have hlt := hp.mantissa_lt
  have hdiv := Nat.div_le_self p.mantissa (Nat.pow 2 (-p.exponent).toNat)
  rw [whole, if_neg (by omega)]
  omega

end Parts

/-! ## Roundings -/

theorem exact_eq_withSign (x : Float) : exact x = withSign (isNegative x) (parts x).size :=
  exact_eq x

theorem exact_signed {n : Nat} (negative : Bool) (hn : n ≤ 2 ^ 53) :
    isFinite (signed negative n) = true ∧ exact (signed negative n) = withSign negative n := by
  have hfinite := (isNearest_ofNat (n := n) (by omega)).finite
  unfold signed withSign
  cases negative
  · exact ⟨hfinite, exact_ofNat hn⟩
  · exact ⟨isFinite_neg hfinite, (exact_neg hfinite).trans (congrArg _ (exact_ofNat hn))⟩

/-- Decimals without bits after the point are whole. -/
theorem exact_of_nonneg (h : 0 ≤ (parts x).exponent) : exact x = ((parts x).truncated : ℤ) := by
  rw [exact_eq_withSign, size_of_nonneg h, truncated, negative_parts]
  unfold withSign
  split <;> push_cast <;> rfl

theorem roundWith_of_nonneg {round : Parts → Nat} (h : 0 ≤ (parts x).exponent) :
    roundWith round x = x := by
  rw [roundWith, decide_eq_false (by omega), Bool.and_false]
  rfl

theorem exact_roundWith (round : Parts → Nat) (hx : isFinite x = true)
    (h : (parts x).exponent < 0) (hround : round (parts x) ≤ 2 ^ 53) :
    isFinite (roundWith round x) = true ∧
      exact (roundWith round x) = withSign (isNegative x) (round (parts x)) := by
  rw [roundWith, hx, decide_eq_true h, ← negative_parts]
  exact exact_signed _ hround

theorem exact_floor (hx : isFinite x = true) :
    isFinite (floor x) = true ∧ exact (floor x) = ⌊exact x⌋ := by
  rcases le_or_gt 0 (parts x).exponent with he | he
  · rw [floor, roundWith_of_nonneg he, exact_of_nonneg he, Int.floor_intCast]
    exact ⟨hx, rfl⟩
  · have hlt := (canonical_parts x).whole_lt he
    obtain ⟨f, hf0, hf1, hsize, hwhole, -⟩ := exists_fraction he
    obtain ⟨hfinite, hexact⟩ := exact_roundWith
      (fun p => if p.negative && !p.isWhole then p.whole + 1 else p.whole) hx he
      (by split <;> omega)
    refine ⟨hfinite, hexact.trans ?_⟩
    rw [exact_eq_withSign, hsize, negative_parts]
    generalize (parts x).whole = n
    unfold withSign
    cases isNegative x
    · simp only [Bool.false_and, Bool.false_eq_true, if_false]
      have hfloor : ⌊(n : ℚ) + f⌋ = n :=
        Int.floor_eq_iff.2 ⟨by push_cast; linarith, by push_cast; linarith⟩
      rw [hfloor, Int.cast_natCast]
    · simp only [Bool.true_and, if_true]
      by_cases h0 : f = 0
      · have hfloor : ⌊-((n : ℚ) + f)⌋ = -n :=
          Int.floor_eq_iff.2 ⟨by push_cast; linarith, by push_cast; linarith⟩
        rw [hwhole.2 h0, hfloor]
        simp
      · have hf : 0 < f := lt_of_le_of_ne hf0 (Ne.symm h0)
        rw [Bool.eq_false_iff.2 (mt hwhole.1 h0)]
        have hfloor : ⌊-((n : ℚ) + f)⌋ = -(n + 1 : ℕ) :=
          Int.floor_eq_iff.2 ⟨by push_cast; linarith, by push_cast; linarith⟩
        rw [hfloor]
        simp

theorem exact_ceil (hx : isFinite x = true) :
    isFinite (ceil x) = true ∧ exact (ceil x) = ⌈exact x⌉ := by
  rcases le_or_gt 0 (parts x).exponent with he | he
  · rw [ceil, roundWith_of_nonneg he, exact_of_nonneg he, Int.ceil_intCast]
    exact ⟨hx, rfl⟩
  · have hlt := (canonical_parts x).whole_lt he
    obtain ⟨f, hf0, hf1, hsize, hwhole, -⟩ := exists_fraction he
    obtain ⟨hfinite, hexact⟩ := exact_roundWith
      (fun p => if !p.negative && !p.isWhole then p.whole + 1 else p.whole) hx he
      (by split <;> omega)
    refine ⟨hfinite, hexact.trans ?_⟩
    rw [exact_eq_withSign, hsize, negative_parts]
    generalize (parts x).whole = n
    unfold withSign
    cases isNegative x
    · simp only [Bool.not_false, Bool.true_and, Bool.false_eq_true, if_false]
      by_cases h0 : f = 0
      · rw [hwhole.2 h0, h0]
        simp
      · have hf : 0 < f := lt_of_le_of_ne hf0 (Ne.symm h0)
        rw [Bool.eq_false_iff.2 (mt hwhole.1 h0)]
        have hceil : ⌈(n : ℚ) + f⌉ = (n + 1 : ℕ) :=
          Int.ceil_eq_iff.2 ⟨by push_cast; linarith, by push_cast; linarith⟩
        rw [hceil]
        simp
    · simp only [Bool.not_true, Bool.false_and, Bool.false_eq_true, if_false, if_true]
      have hceil : ⌈-((n : ℚ) + f)⌉ = -(n : ℤ) :=
        Int.ceil_eq_iff.2 ⟨by push_cast; linarith, by push_cast; linarith⟩
      rw [hceil]
      simp

/-- The rounded number is whole, and off by a half at most. -/
theorem exact_round (hx : isFinite x = true) : isFinite (round x) = true ∧
    ∃ n : ℤ, exact (round x) = n ∧ |exact x - n| ≤ 1 / 2 := by
  rcases le_or_gt 0 (parts x).exponent with he | he
  · rw [round, roundWith_of_nonneg he]
    refine ⟨hx, _, exact_of_nonneg he, ?_⟩
    rw [exact_of_nonneg he, sub_self, abs_zero]
    norm_num
  · have hlt := (canonical_parts x).whole_lt he
    obtain ⟨f, hf0, hf1, hsize, -, hnearest⟩ := exists_fraction he
    obtain ⟨hfinite, hexact⟩ := exact_roundWith Parts.nearest hx he
      (by rw [hnearest]; split <;> omega)
    refine ⟨hfinite, (if isNegative x then -(parts x).nearest else (parts x).nearest : ℤ), ?_, ?_⟩
    · rw [round, hexact, withSign]
      split <;> push_cast <;> rfl
    · rw [exact_eq_withSign, hsize, hnearest, withSign]
      rw [abs_le]
      split <;> split <;> push_cast <;> constructor <;> linarith

/-- No whole number is nearer. -/
theorem abs_sub_round_le (hx : isFinite x = true) (m : ℤ) :
    |exact x - exact (round x)| ≤ |exact x - m| := by
  obtain ⟨-, n, hexact, hhalf⟩ := exact_round hx
  rw [hexact]
  by_cases hmn : m = n
  · rw [hmn]
  · have hapart : (1 : ℚ) ≤ |(m - n : ℤ)| := by
      exact_mod_cast Int.one_le_abs (sub_ne_zero.2 hmn)
    push_cast at hapart
    have htriangle := abs_sub_le (m : ℚ) (exact x) n
    rw [abs_sub_comm (m : ℚ) (exact x)] at htriangle
    linarith

/-! ## Whole numbers -/

theorem isWhole_iff : isWhole x = true ↔ isFinite x = true ∧ ∃ n : ℤ, exact x = n := by
  rw [isWhole, Bool.and_eq_true]
  refine and_congr_right fun hx => ?_
  rcases le_or_gt 0 (parts x).exponent with he | he
  · refine iff_of_true ?_ ⟨_, exact_of_nonneg he⟩
    rw [Parts.isWhole, decide_eq_true he, Bool.true_or]
  · obtain ⟨f, hf0, hf1, hsize, hwhole, -⟩ := exists_fraction he
    rw [hwhole, exact_eq_withSign, hsize]
    constructor
    · intro h0
      refine ⟨if isNegative x then -(parts x).whole else (parts x).whole, ?_⟩
      rw [withSign, h0]
      split <;> push_cast <;> ring
    · rintro ⟨n, hn⟩
      have hinteger : ∃ k : ℤ, f = k := by
        unfold withSign at hn
        split at hn
        · exact ⟨-n - (parts x).whole, by push_cast; linarith⟩
        · exact ⟨n - (parts x).whole, by push_cast; linarith⟩
      obtain ⟨k, rfl⟩ := hinteger
      have hk0 : 0 ≤ k := by exact_mod_cast hf0
      have hk1 : k < 1 := by exact_mod_cast hf1
      have hk : k = 0 := by omega
      rw [hk, Int.cast_zero]

theorem exact_of_isWhole (h : isWhole x = true) : exact x = ((parts x).truncated : ℤ) := by
  obtain ⟨hx, n, hn⟩ := isWhole_iff.1 h
  rcases le_or_gt 0 (parts x).exponent with he | he
  · exact exact_of_nonneg he
  · obtain ⟨f, -, -, hsize, hwhole, -⟩ := exists_fraction he
    rw [isWhole, hx, Bool.true_and] at h
    rw [exact_eq_withSign, hsize, hwhole.1 h, add_zero, truncated, negative_parts]
    unfold withSign
    split <;> push_cast <;> rfl

/-! ## Casts -/

theorem clampTo_of_isFinite {lo hi : Int} (hx : isFinite x = true) :
    clampTo lo hi x = max lo (min hi (parts x).truncated) := by
  rw [clampTo, isNaN_of_isFinite hx, hx]
  rfl

/-- The cast of a whole number is held to the range of 64-bit integers. -/
theorem toInt_toInt64 (hx : isFinite x = true) :
    (toInt64 x).toInt = max (-2 ^ 63) (min (2 ^ 63 - 1) (parts x).truncated) := by
  rw [toInt64, clampTo_of_isFinite hx, Int64.toInt_ofInt_of_le]
  · rfl
  · omega
  · omega

/-- **A whole number in the range of 64-bit integers is not changed by the cast**, nor is the
one after the range, to which the greatest integer is rounded. -/
theorem exact_ofInt_toInt64 (h : isWhole x = true) (hlow : -2 ^ 63 ≤ exact x)
    (hhigh : exact x ≤ 2 ^ 63) : exact (ofInt (toInt64 x).toInt) = exact x := by
  obtain ⟨hx, -⟩ := isWhole_iff.1 h
  have hnearest := isNearest_toInt (toInt64 x)
  have hexact := exact_of_isWhole h
  have hcast := toInt_toInt64 hx
  generalize (parts x).truncated = n at hexact hcast
  rw [hexact] at hlow hhigh
  have hlow' : -2 ^ 63 ≤ n := by exact_mod_cast hlow
  have hhigh' : n ≤ 2 ^ 63 := by exact_mod_cast hhigh
  rcases hhigh'.lt_or_eq with hlt | heq
  · have hn : (toInt64 x).toInt = n := by omega
    rw [hn] at hnearest ⊢
    exact (hnearest.exact_eq hx hexact).trans hexact.symm
  · have hn : (toInt64 x).toInt = 2 ^ 63 - 1 := by omega
    have hparts : parts (ofInt (2 ^ 63 - 1)) = ⟨false, 2 ^ 52, 11⟩ := by decide +kernel
    rw [hn, hexact, heq, exact, hparts]
    show ((2 ^ 52 : ℕ) : ℚ) * 2 ^ (11 : ℤ) = _
    norm_num

/-- No integer counts for more than the number after the greatest. -/
theorem abs_exact_ofInt_le (n : Int64) : |exact (ofInt n.toInt)| ≤ 2 ^ 63 := by
  have hnearest := isNearest_toInt n
  obtain ⟨y, hy, hexact⟩ := exists_exact (m := 2 ^ 52) (e := 11) (by decide) (by decide) (by decide)
  have hpow : ((2 ^ 52 : ℕ) : ℚ) * 2 ^ (11 : ℤ) = 2 ^ 63 := by norm_num
  rw [hpow] at hexact
  have hlow : (-2 ^ 63 : ℚ) ≤ n.toInt := by exact_mod_cast n.le_toInt
  have hhigh : (n.toInt : ℚ) ≤ 2 ^ 63 := by exact_mod_cast n.toInt_lt.le
  rw [abs_le]
  constructor
  · have hge := hnearest.ge (isFinite_neg hy) (by rw [exact_neg hy, hexact]; exact hlow)
    rwa [exact_neg hy, hexact] at hge
  · have hle := hnearest.le hy (by rw [hexact]; exact hhigh)
    rwa [hexact] at hle

/-- Decimals of `2 ^ 53` or more are whole. -/
theorem exists_int_of_le_abs (h : 2 ^ 53 ≤ |exact x|) : ∃ n : ℤ, exact x = n := by
  rcases le_or_gt 0 (parts x).exponent with he | he
  · exact ⟨_, exact_of_nonneg he⟩
  · obtain ⟨f, -, hf1, hsize, -, -⟩ := exists_fraction he
    have hwhole : ((parts x).whole + 1 : ℚ) ≤ 2 ^ 53 := by
      exact_mod_cast (canonical_parts x).whole_lt he
    rw [abs_exact, hsize] at h
    exact absurd h (not_le.2 (by linarith))

/-- An integer counts for a whole number. -/
theorem exists_int_near (n : Int64) : ∃ k : ℤ, near n = k := by
  by_cases hn : n.toInt.natAbs ≤ 2 ^ 53
  · exact ⟨_, near_eq hn⟩
  obtain ⟨y, hy, hpow⟩ : ∃ y, isFinite y = true ∧ exact y = 2 ^ 53 :=
    ⟨_, (isNearest_ofNat (n := 2 ^ 53) (by decide)).finite, by
      exact_mod_cast exact_ofNat (Nat.le_refl _)⟩
  refine exists_int_of_le_abs ?_
  rcases Int.natAbs_eq n.toInt with heq | heq
  · have hle : (2 ^ 53 : ℚ) ≤ n.toInt := by exact_mod_cast (by omega : (2 : ℤ) ^ 53 ≤ n.toInt)
    have hnear := (isNearest_toInt n).ge hy (hpow.trans_le hle)
    rw [hpow] at hnear
    exact hnear.trans (le_abs_self _)
  · have hle : (n.toInt : ℚ) ≤ -2 ^ 53 := by exact_mod_cast (by omega : n.toInt ≤ -(2 : ℤ) ^ 53)
    have hneg : exact (-y) = -2 ^ 53 := by rw [exact_neg hy, hpow]
    have hnear := (isNearest_toInt n).le (isFinite_neg hy) (hle.trans hneg.ge)
    rw [hneg] at hnear
    exact (le_neg_of_le_neg hnear).trans (neg_le_abs _)

/-- A count of things is no more than the number it is cut from. -/
theorem toCount_floor_le (hx : isFinite x = true) (h0 : 0 ≤ exact x) :
    toCount (floor x) < 2 ^ 64 ∧ (toCount (floor x) : ℚ) ≤ exact x := by
  obtain ⟨hfinite, hexact⟩ := exact_floor hx
  have hwhole := exact_of_isWhole (isWhole_iff.2 ⟨hfinite, _, hexact⟩)
  rw [hexact, Int.cast_inj] at hwhole
  have hnonneg : 0 ≤ ⌊exact x⌋ := Int.floor_nonneg.2 h0
  rw [toCount, clampTo_of_isFinite hfinite, ← hwhole]
  refine ⟨by omega, ?_⟩
  have hle : ((max 0 (min 0xFFFFFFFFFFFFFFFF ⌊exact x⌋)).toNat : ℤ) ≤ ⌊exact x⌋ := by omega
  exact (by exact_mod_cast hle : _ ≤ ((⌊exact x⌋ : ℤ) : ℚ)).trans (Int.floor_le _)

end Rulebook.Decimal
