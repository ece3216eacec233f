import Rulebook.Proofs.Decimal.Rounding

/-!
# Integers as decimals

The conversion of an integer gives the decimal nearest to it, which is the integer itself up to
`2 ^ 53`:

    |n| < 2 ^ 64  →  IsNearest n (ofInt n)
    |n| ≤ 2 ^ 53    →  exact (ofInt n) = n

Small numbers are converted in another way than large ones, and multiplied by one.
-/

namespace Rulebook.Decimal

open Float.Model Float.Model.UnpackedFloat

variable {m n : Nat} {e : Int} {x : Float}

/-! ## Shifts -/

theorem log2_mul_two_pow (hm : m ≠ 0) (k : Nat) : (m * 2 ^ k).log2 = m.log2 + k := by
  induction k with
  | zero => rw [Nat.pow_zero, Nat.mul_one, Nat.add_zero]
  | succ k ih =>
    have hne : m * 2 ^ k ≠ 0 := Nat.mul_ne_zero hm (Nat.two_pow_pos k).ne'
    rw [Nat.pow_succ', Nat.mul_left_comm, Nat.log2_two_mul hne, ih, Nat.add_assoc]

theorem lastExponent_mul (hm : m ≠ 0) (e : Int) (k : Nat) :
    lastExponent (m * 2 ^ k) (e - k) = lastExponent m e := by
  rw [lastExponent, lastExponent, log2_mul_two_pow hm]
  congr 1
  push_cast
  ring

/-- The last bit of canonical parts is kept. -/
theorem lastExponent_of_canonical {p : Parts} (hp : p.Canonical) (h0 : p.mantissa ≠ 0) :
    lastExponent p.mantissa p.exponent = p.exponent := by
  have hlow : p.mantissa.log2 ≤ 52 := Nat.le_of_lt_succ ((Nat.log2_lt h0).2 hp.mantissa_lt)
  have hleast := hp.least_exponent
  unfold lastExponent
  rcases hp.normal with hexponent | hmantissa
  · omega
  · have hhigh : 52 ≤ p.mantissa.log2 := (Nat.le_log2 h0).2 hmantissa
    omega

/-! ## One -/

/-- One, as a factor. -/
def one : Float := Float.ofBits 0x3FF0000000000000

theorem unpack_one : one.toModel.unpack = .finite .positive (2 ^ 52) (-52) (by decide) := by
  have hfinite : isFinite one = true := by decide +kernel
  have hparts : parts one = ⟨false, 2 ^ 52, -52⟩ := by decide +kernel
  rw [unpack_eq hfinite, hparts]
  rfl

theorem mul_positive (s : Sign) : s * .positive = s := by cases s <;> rfl

/-- Rounding keeps canonical parts. -/
theorem roundWithAccuracy_of_canonical {p : Parts} (hp : p.Canonical) (h0 : p.mantissa ≠ 0)
    (k : Nat) : roundWithAccuracy Format.binary64 (Parts.sign p.negative) (p.mantissa * 2 ^ k)
      (p.exponent - k) .exact = p.unpacked := by
  have hlast : lastExponent (p.mantissa * 2 ^ k) (p.exponent - k) = p.exponent := by
    rw [lastExponent_mul h0, lastExponent_of_canonical hp h0]
  have hshift : (p.exponent - (p.exponent - k)).toNat = k := by omega
  have hle : p.exponent - k ≤ lastExponent (p.mantissa * 2 ^ k) (p.exponent - k) := by omega
  rw [roundWithAccuracy_eq hle, hlast, hshift, halfEven_mul _ (Nat.two_pow_pos k), carried,
    if_neg (Nat.ne_of_lt hp.mantissa_lt)]

theorem mul_one_unpacked {p : Parts} (hp : p.Canonical) :
    UnpackedFloat.mul Format.binary64 p.unpacked (.finite .positive (2 ^ 52) (-52) (by decide)) =
      p.unpacked := by
  by_cases h0 : p.mantissa = 0
  · rw [Parts.unpacked, dif_pos h0]
    exact congrArg UnpackedFloat.zero (mul_positive _)
  · refine Eq.trans ?_ (roundWithAccuracy_of_canonical hp h0 52)
    rw [Parts.unpacked, dif_neg h0]
    show roundWithAccuracy Format.binary64 (Parts.sign p.negative * .positive) _ _ .exact = _
    rw [mul_positive]
    rfl

theorem parts_mul_one (h : isFinite x = true) : parts (x * one) = parts x := by
  have hp := canonical_parts x
  have hmul : x * one = ⟨Float.Model.pack (UnpackedFloat.mul Format.binary64 (parts x).unpacked
      (.finite .positive (2 ^ 52) (-52) (by decide)))⟩ := by
    rw [← unpack_one, ← unpack_eq h]
    rfl
  rw [hmul, mul_one_unpacked hp, parts_pack hp (isFinite_iff.1 h)]

/-! ## Conversion -/

/-- Rounding from any exponent. -/
theorem exists_rounds_any (negative : Bool) (hm : m ≠ 0) : ∃ p : Parts,
    p.Rounds (if negative then -(m * 2 ^ e) else m * 2 ^ e) ∧ p.exponent ≤ lastExponent m e + 1 ∧
      UnpackedFloat.round Format.binary64 (Parts.sign negative) m e = p.unpacked := by
  obtain ⟨k, hk⟩ : ∃ k, k = (e - lastExponent m e).toNat := ⟨_, rfl⟩
  have hround : UnpackedFloat.round Format.binary64 (Parts.sign negative) m e =
      roundWithAccuracy Format.binary64 (Parts.sign negative) (m * 2 ^ k) (e - k) .exact := by
    rw [UnpackedFloat.round, targetExponent_eq, decreaseExponent, Nat.shiftLeft_eq, hk]
    rfl
  have hlast := lastExponent_mul hm e k
  have hvalue : (m : ℚ) * 2 ^ e = (m * 2 ^ k : ℕ) * 2 ^ (e - k) := by
    rw [zpow_sub₀ (by norm_num), zpow_natCast]
    push_cast
    field_simp
  rw [hround, hvalue, ← hlast]
  exact exists_rounds negative (by omega)

theorem isNearest_round_any (hm : m ≠ 0) (hrange : lastExponent m e ≤ 970) :
    IsNearest (m * 2 ^ e)
      ⟨Float.Model.pack (UnpackedFloat.round Format.binary64 .positive m e)⟩ := by
  obtain ⟨p, hp, hexponent, hround⟩ := exists_rounds_any false (e := e) hm
  have hpositive : Parts.sign false = .positive := rfl
  rw [hpositive] at hround
  rw [hround]
  exact hp.isNearest (by omega)

theorem ofNat_small (hn : n < 2 ^ 53) : ofNat n = n.toUInt64.toFloat * one := by
  show Float.ofScientific n false 0 = _
  rw [Float.ofScientific, dif_pos ⟨hn, by decide⟩]
  rfl

theorem toFloat_eq (h0 : n ≠ 0) (hn : n < 2 ^ 53) : n.toUInt64.toFloat =
    ⟨Float.Model.pack (UnpackedFloat.round Format.binary64 .positive n 0)⟩ := by
  have hword : n.toUInt64.toNat = n := by
    show n % 2 ^ 64 = n
    omega
  have hpositive : compare (n : Int) 0 = .gt := compare_gt_iff_gt.2 (by omega)
  show (⟨Float.Model.pack (UnpackedFloat.normalize Format.binary64 (n.toUInt64.toNat : Int) 0
    .positive)⟩ : Float) = _
  rw [hword, UnpackedFloat.normalize, hpositive]
  rfl

theorem exact_ofNat_zero : exact (ofNat 0) = 0 := by
  have hparts : parts (ofNat 0) = ⟨false, 0, -1074⟩ := by decide +kernel
  rw [exact, hparts, Parts.exact, Parts.size]
  simp

theorem lastExponent_le (h0 : n ≠ 0) (hn : n < 2 ^ 64) : lastExponent n 0 ≤ 970 := by
  have hlog : n.log2 < 64 := (Nat.log2_lt h0).2 hn
  unfold lastExponent
  omega

/-- **The conversion of a natural number gives the nearest decimal.** -/
theorem isNearest_ofNat (hn : n < 2 ^ 64) : IsNearest n (ofNat n) := by
  by_cases h0 : n = 0
  · subst h0
    have hself := IsNearest.self (x := ofNat 0) (by decide +kernel)
    rwa [exact_ofNat_zero, ← Nat.cast_zero] at hself
  have hrange := lastExponent_le h0 hn
  have hvalue : (n : ℚ) = n * 2 ^ (0 : Int) := by rw [zpow_zero, mul_one]
  by_cases hsmall : n < 2 ^ 53
  · have hnearest := isNearest_round_any h0 hrange
    rw [← toFloat_eq h0 hsmall, ← hvalue] at hnearest
    rw [ofNat_small hsmall]
    exact hnearest.of_parts (parts_mul_one hnearest.finite)
  · have hlast : lastExponent (n * 2 ^ 53) (-53) = lastExponent n 0 := lastExponent_mul h0 0 53
    have hwide : ((n * 2 ^ 53 : ℕ) : ℚ) * 2 ^ (-53 : Int) = n := by
      push_cast
      rw [zpow_neg]
      field_simp
      norm_num
    rw [ofNat_eq (Nat.le_of_not_lt hsmall), Nat.shiftLeft_eq, ← hwide]
    refine isNearest_round ?_ ?_
    · rw [hlast]
      unfold lastExponent
      omega
    · rw [hlast]
      exact hrange

theorem isNearest_ofInt {n : Int} (hn : n.natAbs < 2 ^ 64) : IsNearest n (ofInt n) := by
  cases n with
  | ofNat n => exact isNearest_ofNat hn
  | negSucc n =>
    have h := (isNearest_ofNat (n := n + 1) hn).neg
    rwa [← Int.cast_negSucc] at h

/-! ## Small numbers -/

/-- Mantissas of up to 53 bits need no rounding. -/
theorem exists_exact (hm : m < 2 ^ 53) (he : -1074 ≤ e) (he' : e ≤ 971) :
    ∃ y, isFinite y = true ∧ exact y = m * 2 ^ e := by
  by_cases h0 : m = 0
  · subst h0
    refine ⟨ofNat 0, by decide +kernel, ?_⟩
    rw [exact_ofNat_zero, Nat.cast_zero, zero_mul]
  · have hlog : m.log2 ≤ 52 := Nat.le_of_lt_succ ((Nat.log2_lt h0).2 hm)
    -- as many zero bits as there is room for
    obtain ⟨k, hk⟩ : ∃ k, k = min (52 - m.log2) (e + 1074).toNat := ⟨_, rfl⟩
    have hlog' : (m * 2 ^ k).log2 = m.log2 + k := log2_mul_two_pow h0 k
    have h0' : m * 2 ^ k ≠ 0 := Nat.mul_ne_zero h0 (Nat.two_pow_pos k).ne'
    have hp : (⟨false, m * 2 ^ k, e - k⟩ : Parts).Canonical := by
      refine ⟨(Nat.log2_lt h0').1 (by omega), by dsimp only; omega, ?_⟩
      rcases Nat.le_total (52 - m.log2) (e + 1074).toNat with hle | hle
      · exact .inr ((Nat.le_log2 h0').1 (by omega))
      · exact .inl (by dsimp only; omega)
    have hparts := parts_pack hp (by dsimp only; omega)
    generalize (⟨Float.Model.pack _⟩ : Float) = y at hparts
    refine ⟨y, ?_, ?_⟩
    · rw [isFinite_iff, hparts]
      dsimp only
      omega
    · rw [exact, hparts]
      show ((m * 2 ^ k : ℕ) : ℚ) * 2 ^ (e - k) = _
      rw [zpow_sub₀ (by norm_num), zpow_natCast]
      push_cast
      field_simp

theorem exact_ofNat (hn : n ≤ 2 ^ 53) : exact (ofNat n) = n := by
  obtain ⟨y, hy, hexact⟩ : ∃ y, isFinite y = true ∧ exact y = n := by
    rcases Nat.lt_or_eq_of_le hn with hlt | rfl
    · have h := exists_exact (m := n) (e := 0) hlt (by decide) (by decide)
      rwa [zpow_zero, mul_one] at h
    · have h := exists_exact (m := 2 ^ 52) (e := 1) (by decide) (by decide) (by decide)
      norm_num at h ⊢
      exact h
  exact (isNearest_ofNat (by omega)).exact_eq hy hexact

/-- **Integers up to `2 ^ 53` are kept.** -/
theorem exact_ofInt {n : Int} (hn : n.natAbs ≤ 2 ^ 53) : exact (ofInt n) = n := by
  cases n with
  | ofNat n => exact exact_ofNat hn
  | negSucc n =>
    have hfinite := (isNearest_ofNat (n := n + 1) (by simp at hn; omega)).finite
    rw [Int.cast_negSucc]
    exact (exact_neg hfinite).trans (congrArg Neg.neg (exact_ofNat hn))

/-! ## 64-bit integers -/

/-- The number that the decimal nearest to an integer stands for. -/
def near (n : Int64) : ℚ := exact (ofInt n.toInt)

theorem natAbs_toInt_lt (n : Int64) : n.toInt.natAbs < 2 ^ 64 := by
  have hlow := n.le_toInt
  have hhigh := n.toInt_lt
  omega

theorem isNearest_toInt (n : Int64) : IsNearest n.toInt (ofInt n.toInt) :=
  isNearest_ofInt (natAbs_toInt_lt n)

theorem near_eq {n : Int64} (h : n.toInt.natAbs ≤ 2 ^ 53) : near n = n.toInt := exact_ofInt h

/-- The decimals nearest to integers come in the order of the integers, but some are the same. -/
theorem near_le_iff {m n : Int64} : near m ≤ near n ↔ m ≤ n ∨ near m = near n := by
  have hmono {i j : Int64} (h : i.toInt < j.toInt) : near i ≤ near j :=
    (isNearest_toInt i).mono (isNearest_toInt j) (by exact_mod_cast h)
  rw [Int64.le_iff_toInt_le]
  constructor
  · intro hle
    rcases le_or_gt m.toInt n.toInt with h | h
    · exact .inl h
    · exact .inr (le_antisymm hle (hmono h))
  · rintro (hle | heq)
    · rcases Int.lt_or_eq_of_le hle with h | h
      · exact hmono h
      · rw [near, near, h]
    · exact heq.le

/-! ## Signs -/

theorem isNegative_of_pos (h : 0 < exact x) : isNegative x = false := by
  by_contra hnegative
  rw [exact_eq, if_pos (by simpa using hnegative)] at h
  linarith [(parts x).size_nonneg]

theorem isNegative_ofNat (hn : n < 2 ^ 64) : isNegative (ofNat n) = false := by
  by_cases h0 : n = 0
  · subst h0
    decide +kernel
  have hone : exact (ofNat 1) = 1 := by exact_mod_cast exact_ofNat (n := 1) (by decide)
  refine isNegative_of_pos ?_
  by_cases h1 : n = 1
  · rw [h1, hone]
    norm_num
  · have hlt : ((1 : ℕ) : ℚ) < n := by exact_mod_cast (by omega : 1 < n)
    have hle := (isNearest_ofNat (n := 1) (by decide)).mono (isNearest_ofNat hn) hlt
    rw [hone] at hle
    linarith

/-- The conversion keeps the sign, and makes no minus zero. -/
theorem isNegative_ofInt {n : Int} (hn : n.natAbs < 2 ^ 64) :
    isNegative (ofInt n) = decide (n < 0) := by
  cases n with
  | ofNat n => exact (isNegative_ofNat hn).trans (decide_eq_false (by simp)).symm
  | negSucc n =>
    have hsign := isNegative_neg (isNearest_ofNat (n := n + 1) hn).finite
    rw [isNegative_ofNat (n := n + 1) hn] at hsign
    exact hsign.trans (decide_eq_true (Int.negSucc_lt_zero n)).symm

end Rulebook.Decimal
