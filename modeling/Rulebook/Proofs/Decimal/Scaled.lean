import Rulebook.Proofs.Decimal.Whole
import Rulebook.Rule.Check

/-!
# Decimals scaled by a power of ten

Rounding to `d` decimals scales by `10 ^ d`, rounds to a whole number unless the scaled number is
one but for noise, and divides.  The noise allowed is `max |s| 1 / 2 ^ 50` on the scaled number `s`
(`exact_tolerance`), which is more than the scaling makes:

    |s - a| ≤ |a| / 2 ^ 53 + noise                        (`close_scale`)

So what is the decimal nearest to a multiple of `10 ^ -e` passes for `d` decimals wherever `e ≤ d`
and the scaled number is finite (`hasDecimals_of_onGrid`), and what is no such number is rounded
past itself (`le_roundTo_up`), but not past a number of `d` decimals (`roundTo_up_le`).
-/

namespace Rulebook.Decimal

/-! ## Noise -/

/-- The noise of a subnormal number, scaled by the greatest power. -/
def noise : ℚ := 2 ^ (-1075 : ℤ) * 10 ^ 15

theorem noise_pos : 0 < noise := by
  unfold noise
  positivity

theorem noise_le : noise ≤ 1 / 2 ^ 100 := by
  have hstep : (2 : ℚ) ^ (-1075 : ℤ) ≤ 2 ^ (-150 : ℤ) :=
    zpow_le_zpow_right₀ (by norm_num) (by decide)
  unfold noise
  calc (2 : ℚ) ^ (-1075 : ℤ) * 10 ^ 15 ≤ 2 ^ (-150 : ℤ) * 10 ^ 15 := by gcongr
    _ ≤ 1 / 2 ^ 100 := by norm_num

theorem least_le_noise : (2 : ℚ) ^ (-1075 : ℤ) ≤ noise :=
  le_mul_of_one_le_right (by positivity) (by norm_num)

/-- `s` is `a` but for the noise of one operation. -/
def Close (a s : ℚ) : Prop := |s - a| ≤ |a| / 2 ^ 53 + noise

theorem Close.neg {a s : ℚ} (h : Close a s) : Close (-a) (-s) := by
  have hneg : -s - -a = -(s - a) := by ring
  unfold Close
  rwa [hneg, abs_neg, abs_neg]

/-- The noise that passes for none on a scaled number. -/
def slack (s : ℚ) : ℚ := max |s| 1 / 2 ^ 50

theorem slack_neg (s : ℚ) : slack (-s) = slack s := by
  unfold slack
  rw [abs_neg]

theorem one_le_slack (s : ℚ) : 1 / 2 ^ 50 ≤ slack s :=
  div_le_div_of_nonneg_right (le_max_right _ _) (by norm_num)

theorem abs_le_slack (s : ℚ) : |s| / 2 ^ 50 ≤ slack s :=
  div_le_div_of_nonneg_right (le_max_left _ _) (by norm_num)

/-- What scales to no more than a whole number but for noise is past it by noise at most. -/
theorem Close.sub_le_slack {m : ℤ} {a b s : ℚ} (hb : Close m b) (hs : Close a s) (hab : a ≤ b)
    (hms : m < s) : |s - m| ≤ slack s := by
  have hnoise := noise_pos
  have hnoise' := noise_le
  have hone := one_le_slack s
  have habs := abs_le_slack s
  have hb' := (abs_le.1 hb).2
  have hs' := (abs_le.1 hs).2
  rw [abs_of_pos (sub_pos.2 hms)]
  rcases lt_trichotomy m 0 with hm | hm | hm
  · have hm' : (m : ℚ) ≤ -1 := by exact_mod_cast Int.le_sub_one_of_lt hm
    rw [abs_of_neg (by linarith)] at hb'
    have ha : a < 0 := by linarith
    rw [abs_of_neg ha] at hs'
    rw [abs_of_neg (by linarith)] at habs
    linarith
  · rw [hm, Int.cast_zero, abs_zero] at hb'
    rw [hm, Int.cast_zero] at hms ⊢
    rcases abs_cases a with ⟨ha, -⟩ | ⟨ha, -⟩ <;> rw [ha] at hs' <;> linarith
  · have hm' : (1 : ℚ) ≤ m := by exact_mod_cast hm
    rw [abs_of_pos (by linarith)] at hb'
    rw [abs_of_pos (by linarith)] at habs
    rcases abs_cases a with ⟨ha, -⟩ | ⟨ha, -⟩ <;> rw [ha] at hs' <;> linarith

theorem Close.abs_sub_le_slack {m : ℤ} {a s : ℚ} (hm : Close m a) (hs : Close a s) :
    |s - m| ≤ slack s := by
  rcases lt_trichotomy (m : ℚ) s with h | h | h
  · exact hm.sub_le_slack hs le_rfl h
  · rw [h, sub_self, abs_zero]
    exact le_trans (by norm_num) (one_le_slack s)
  · have hneg : Close (-m : ℤ) (-a) := by
      rw [Int.cast_neg]
      exact hm.neg
    have hle := hneg.sub_le_slack hs.neg le_rfl (by push_cast; linarith)
    rw [slack_neg] at hle
    calc |s - m| = |-s - (-m : ℤ)| := by rw [← abs_neg]; congr 1; push_cast; ring
      _ ≤ slack s := hle

/-- What is more than noise above what a number scales to, is above what it is. -/
theorem Close.le_of_slack {a s z : ℚ} (hs : Close a s) (hz : s + slack s ≤ z) : a ≤ z := by
  have hnoise := noise_pos
  have hnoise' := noise_le
  have hone := one_le_slack s
  have habs := abs_le_slack s
  have hs' := (abs_le.1 hs).1
  have hpos := le_abs_self s
  have hneg := neg_abs_le s
  rcases abs_cases a with ⟨ha, -⟩ | ⟨ha, -⟩ <;> rw [ha] at hs' <;>
    rcases le_or_gt |a| 1 with h1 | h1 <;> rw [ha] at h1 <;> linarith

/-! ## Powers -/

variable {d e : Nat} {x y s : Float}

theorem parts_tenTo : ∀ d < 16, parts (tenTo d) = parts (ofNat (10 ^ d)) := by decide +kernel

theorem exact_tenTo (hd : d ≤ 15) : isFinite (tenTo d) = true ∧ exact (tenTo d) = 10 ^ d := by
  have hparts := parts_tenTo d (by omega)
  have hpow : 10 ^ d ≤ 2 ^ 53 := (Nat.pow_le_pow_right (by decide) hd).trans (by decide)
  have hfinite := (isNearest_ofNat (n := 10 ^ d) (by omega)).finite
  constructor
  · rw [isFinite_iff, hparts]
    exact isFinite_iff.1 hfinite
  · rw [exact, hparts]
    exact (exact_ofNat hpow).trans (by push_cast; rfl)

/-- Powers of two change the exponent only. -/
theorem exists_scaled {k : Int} (hlow : -1074 ≤ (parts x).exponent + k)
    (hhigh : (parts x).exponent + k ≤ 971) :
    ∃ y, isFinite y = true ∧ exact y = exact x * 2 ^ k := by
  obtain ⟨y, hy, hexact⟩ := exists_exact (canonical_parts x).mantissa_lt hlow hhigh
  have hsize : exact y = (parts x).size * 2 ^ k := by
    rw [hexact, Parts.size, zpow_add₀ (by norm_num)]
    ring
  rw [exact_eq x]
  cases isNegative x
  · exact ⟨y, hy, hsize⟩
  · refine ⟨-y, isFinite_neg hy, ?_⟩
    rw [exact_neg hy, hsize]
    exact (neg_mul _ _).symm

theorem le_exponent (h : 1 ≤ exact x) : -52 ≤ (parts x).exponent := by
  have hmantissa : ((parts x).mantissa : ℚ) < 2 ^ 53 := by
    exact_mod_cast (canonical_parts x).mantissa_lt
  by_contra hlt
  have hscale : (2 : ℚ) ^ (parts x).exponent ≤ 2 ^ (-53 : ℤ) :=
    zpow_le_zpow_right₀ (by norm_num) (by omega)
  have hle : (1 : ℚ) ≤ (parts x).size := h.trans (parts x).exact_le_size
  have hsize : (parts x).size < 1 := by
    calc (parts x).size < 2 ^ 53 * 2 ^ (parts x).exponent :=
          mul_lt_mul_of_pos_right hmantissa (by positivity)
      _ ≤ 2 ^ 53 * 2 ^ (-53 : ℤ) := by gcongr
      _ = 1 := by norm_num
  linarith

/-! ## Tolerance -/

open Modifier

theorem exact_of_parts {p : Parts} (h : parts x = p) (hp : p.exponent ≤ 971) :
    isFinite x = true ∧ exact x = p.exact := by
  subst h
  exact ⟨isFinite_iff.2 hp, rfl⟩

/-- **The tolerance is the slack**, with nothing lost to rounding. -/
theorem exact_tolerance (hs : isFinite s = true) :
    isFinite (tolerance s) = true ∧ exact (tolerance s) = slack (exact s) := by
  have hone : isFinite 1 = true ∧ exact 1 = 1 := by
    have hparts : parts 1 = ⟨false, 2 ^ 52, -52⟩ := by decide +kernel
    refine (exact_of_parts hparts (by decide)).imp_right fun h => h.trans ?_
    show ((2 ^ 52 : ℕ) : ℚ) * 2 ^ (-52 : ℤ) = 1
    norm_num
  have hepsilon : isFinite (Float.ofBits 0x3CB0000000000000) = true ∧
      exact (Float.ofBits 0x3CB0000000000000) = 2 ^ (-52 : ℤ) := by
    have hparts : parts (Float.ofBits 0x3CB0000000000000) = ⟨false, 2 ^ 52, -104⟩ := by
      decide +kernel
    refine (exact_of_parts hparts (by decide)).imp_right fun h => h.trans ?_
    show ((2 ^ 52 : ℕ) : ℚ) * 2 ^ (-104 : ℤ) = 2 ^ (-52 : ℤ)
    norm_num
  have hfour : isFinite 4 = true ∧ exact 4 = 4 := by
    have hparts : parts 4 = ⟨false, 2 ^ 52, -50⟩ := by decide +kernel
    refine (exact_of_parts hparts (by decide)).imp_right fun h => h.trans ?_
    show ((2 ^ 52 : ℕ) : ℚ) * 2 ^ (-50 : ℤ) = 4
    norm_num
  obtain ⟨hlarger, hsize⟩ := exact_larger (isFinite_abs hs) hone.1
  rw [exact_abs hs, hone.2] at hsize
  unfold tolerance slack
  rw [← hsize]
  generalize larger s.abs 1 = l at hlarger hsize
  have hlow := le_exponent (x := l) (hsize ▸ le_max_right _ _)
  have hhigh := isFinite_iff.1 hlarger
  have hproduct := rounded_mul hepsilon.1 hlarger
  obtain ⟨y, hy, hexact⟩ := exists_scaled (x := l) (k := -52) (by omega) (by omega)
  obtain ⟨hfinite, hvalue⟩ := hproduct.exact_eq hy (by rw [hexact, hepsilon.2, mul_comm])
  have hproduct' := rounded_mul hfinite hfour.1
  obtain ⟨y', hy', hexact'⟩ := exists_scaled (x := l) (k := -50) (by omega) (by omega)
  have hquotient : exact l * 2 ^ (-50 : ℤ) = exact l / 2 ^ 50 := by norm_num [div_eq_mul_inv]
  refine (hproduct'.exact_eq hy' ?_).imp_right fun h => h.trans ?_
  · rw [hexact', hvalue, hepsilon.2, hfour.2, hquotient]
    norm_num
    ring
  · rw [hvalue, hepsilon.2, hfour.2]
    norm_num
    ring

/-! ## Near whole numbers -/

theorem two_pow_lt_outOfRange : 2 ^ 110 < outOfRange := by
  have hplace : (2 : ℚ) ^ (100 : ℤ) ≤ halfPlace := zpow_le_zpow_right₀ (by norm_num) (by decide)
  unfold outOfRange
  calc (2 : ℚ) ^ 110 < (2 ^ 54 - 1) * 2 ^ (100 : ℤ) := by norm_num
    _ ≤ (2 ^ 54 - 1) * halfPlace := mul_le_mul_of_nonneg_left hplace (by norm_num)

/-- **What is a whole number but for slack passes for one.** -/
theorem isNearWhole_of_le (hs : isFinite s = true) {m : ℤ} (h : |exact s - m| ≤ slack (exact s)) :
    isNearWhole s = true := by
  obtain ⟨hround, n, hn, hhalf⟩ := exact_round hs
  obtain ⟨htolerance, hslack⟩ := exact_tolerance hs
  have hle : |exact s - exact (round s)| ≤ slack (exact s) := (abs_sub_round_le hs m).trans h
  have hsub := rounded_sub hs hround
  have hrange := two_pow_lt_outOfRange
  have hfinite : isFinite (s - round s) = true := by
    refine hsub.isFinite_iff.2 ?_
    rw [hn]
    linarith
  obtain ⟨hlow, hhigh⟩ := abs_le.1 hle
  have hnearest := hsub.isNearest hfinite
  have hbound : |exact (s - round s)| ≤ slack (exact s) := by
    refine abs_le.2 ⟨?_, ?_⟩
    · have hge := hnearest.ge (isFinite_neg htolerance)
        (by rw [exact_neg htolerance, hslack]; exact hlow)
      rwa [exact_neg htolerance, hslack] at hge
    · have hle := hnearest.le htolerance (by rw [hslack]; exact hhigh)
      rwa [hslack] at hle
  refine decide_eq_true ?_
  rw [le_iff (isFinite_abs hfinite) htolerance, exact_abs hfinite, hslack]
  exact hbound

theorem slack_lt (hs : isFinite s = true) (hnear : isNearWhole s = false) (m : ℤ) :
    slack (exact s) < |exact s - m| := by
  by_contra hle
  exact Bool.false_ne_true (hnear.symm.trans (isNearWhole_of_le hs (not_lt.1 hle)))

/-- Large numbers pass for whole ones. -/
theorem abs_lt_of_not_near (hs : isFinite s = true) (hnear : isNearWhole s = false) :
    |exact s| < 2 ^ 49 := by
  obtain ⟨-, n, -, hhalf⟩ := exact_round hs
  have hlt := slack_lt hs hnear n
  have hle := abs_le_slack (exact s)
  linarith

/-! ## Scaling -/

theorem close_scale (hd : d ≤ 15) (hx : isFinite x = true) (hs : isFinite (x * tenTo d) = true) :
    Close (exact x * 10 ^ d) (exact (x * tenTo d)) := by
  obtain ⟨hten, hexact⟩ := exact_tenTo hd
  have herror := (rounded_mul hx hten).error hs
  rw [hexact] at herror
  exact herror.trans (by have := least_le_noise; linarith)

theorem isFinite_scale_iff (hd : d ≤ 15) (hx : isFinite x = true) :
    isFinite (x * tenTo d) = true ↔ |exact x * 10 ^ d| < outOfRange := by
  obtain ⟨hten, hexact⟩ := exact_tenTo hd
  rw [(rounded_mul hx hten).isFinite_iff, hexact]

theorem close_of_error {q : ℚ} (h : |exact x - q| ≤ |q| / 2 ^ 53 + 2 ^ (-1075 : ℤ)) (hd : d ≤ 15) :
    Close (q * 10 ^ d) (exact x * 10 ^ d) := by
  have hpow : (0 : ℚ) < 10 ^ d := by positivity
  have hpow' : (10 : ℚ) ^ d ≤ 10 ^ 15 := pow_le_pow_right₀ (by norm_num) hd
  unfold Close noise
  rw [← sub_mul, abs_mul, abs_mul, abs_of_pos hpow]
  calc |exact x - q| * 10 ^ d ≤ (|q| / 2 ^ 53 + 2 ^ (-1075 : ℤ)) * 10 ^ d := by gcongr
    _ = |q| * 10 ^ d / 2 ^ 53 + 2 ^ (-1075 : ℤ) * 10 ^ d := by ring
    _ ≤ |q| * 10 ^ d / 2 ^ 53 + 2 ^ (-1075 : ℤ) * 10 ^ 15 := by gcongr

/-! ## Multiples of a power of ten -/

/-- The decimal nearest to a number of this many decimals. -/
def OnGrid (digits : Nat) (x : Float) : Prop := ∃ k : ℤ, IsNearest (k / 10 ^ digits) x

/-- A number out of range, which has no decimal close by, is not needed. -/
theorem OnGrid.exists_error (h : OnGrid d x) : ∃ k : ℤ, IsNearest (k / 10 ^ d) x ∧
    |exact x - k / 10 ^ d| ≤ |(k / 10 ^ d : ℚ)| / 2 ^ 53 + 2 ^ (-1075 : ℤ) := by
  obtain ⟨k, hk⟩ := h
  rcases lt_or_ge |(k / 10 ^ d : ℚ)| outOfRange with hlt | hge
  · exact ⟨k, hk, hk.error hlt⟩
  · obtain ⟨n, hn⟩ := hk.exists_int_of_outOfRange hge
    have hpow : (10 : ℚ) ^ d ≠ 0 := by positivity
    have hvalue : ((n * 10 ^ d : ℤ) : ℚ) / 10 ^ d = exact x := by
      rw [hn]
      push_cast
      exact mul_div_cancel_right₀ _ hpow
    refine ⟨n * 10 ^ d, hvalue ▸ .self hk.finite, ?_⟩
    rw [hvalue, sub_self, abs_zero]
    positivity

/-- **A number of `e` decimals passes for any greater number of them.** -/
theorem hasDecimals_of_onGrid (h : OnGrid e x) (he : e ≤ d) (hd : d ≤ 15)
    (hs : isFinite (x * tenTo d) = true) : hasDecimals d x = true := by
  obtain ⟨k, hk, herror⟩ := h.exists_error
  have hm : (k / 10 ^ e : ℚ) * 10 ^ d = (k * 10 ^ (d - e) : ℤ) := by
    have hsplit : (10 : ℚ) ^ d = 10 ^ e * 10 ^ (d - e) := by rw [← pow_add, Nat.add_sub_cancel' he]
    rw [hsplit]
    push_cast
    field_simp
  have hclose := close_of_error herror hd
  rw [hm] at hclose
  exact isNearWhole_of_le hs (hclose.abs_sub_le_slack (close_scale hd hk.finite hs))

/-- A whole number has no decimals. -/
theorem onGrid_of_isWhole (h : isWhole x = true) : OnGrid 0 x := by
  obtain ⟨hx, n, hn⟩ := isWhole_iff.1 h
  refine ⟨n, ?_⟩
  rw [pow_zero, div_one, ← hn]
  exact .self hx

theorem roundTo_of_not_near {up : Bool} (hnear : hasDecimals d x = false) : roundTo d up x =
    (if up then ceil (x * tenTo d) else floor (x * tenTo d)) / tenTo d :=
  if_neg (Bool.eq_false_iff.1 hnear)

/-! ## Numbers that are too large -/

theorem isNearWhole_infinite : ∀ b, isNearWhole (infinite b) = false := by decide +kernel

theorem isFinite_infinite_div : ∀ b up : Bool, ∀ d < 16, isFinite
    ((if up then ceil (infinite b) else floor (infinite b)) / tenTo d) = false := by
  decide +kernel

/-- **What cannot be scaled does not pass, and is rounded to an infinity.** -/
theorem roundTo_of_overflow (hd : d ≤ 15) (hx : isFinite x = true)
    (hs : isFinite (x * tenTo d) = false) (up : Bool) :
    hasDecimals d x = false ∧ isFinite (roundTo d up x) = false := by
  obtain ⟨b, hb⟩ := (rounded_mul hx (exact_tenTo hd).1).exists_infinite hs
  have hnear : hasDecimals d x = false := by
    rw [hasDecimals, hb]
    exact isNearWhole_infinite b
  refine ⟨hnear, ?_⟩
  rw [roundTo_of_not_near hnear, hb]
  exact isFinite_infinite_div b up d (by omega)

/-! ## Directed rounding -/

/-- The whole number that a scaled number is rounded to. -/
def stepped (digits : Nat) (up : Bool) (x : Float) : ℤ :=
  if up then ⌈exact (x * tenTo digits)⌉ else ⌊exact (x * tenTo digits)⌋

section
variable (hd : d ≤ 15) (hx : isFinite x = true) (hs : isFinite (x * tenTo d) = true)
  (hnear : hasDecimals d x = false)
include hd hs hnear

omit hd in
theorem abs_stepped_le (up : Bool) : |(stepped d up x : ℚ)| ≤ 2 ^ 49 := by
  obtain ⟨hlow, hhigh⟩ := abs_lt.1 (abs_lt_of_not_near hs hnear)
  have hpow : ((2 ^ 49 : ℤ) : ℚ) = 2 ^ 49 := by norm_num
  have hstepped : -2 ^ 49 ≤ stepped d up x ∧ stepped d up x ≤ 2 ^ 49 := by
    unfold stepped
    split
    · refine ⟨?_, Int.ceil_le.2 (by rw [hpow]; exact hhigh.le)⟩
      exact Int.le_ceil_iff.2 (by push_cast; linarith)
    · refine ⟨Int.le_floor.2 (by push_cast; linarith), ?_⟩
      exact (Int.floor_lt.2 (by rw [hpow]; exact hhigh)).le
  rw [abs_le]
  exact ⟨by exact_mod_cast hstepped.1, by exact_mod_cast hstepped.2⟩

omit hd in
theorem abs_stepped_div_le (up : Bool) : |(stepped d up x / 10 ^ d : ℚ)| ≤ 2 ^ 49 := by
  have hpow : (1 : ℚ) ≤ 10 ^ d := one_le_pow₀ (by norm_num)
  rw [abs_div, abs_of_pos (by linarith : (0 : ℚ) < 10 ^ d)]
  exact (div_le_self (abs_nonneg _) hpow).trans (abs_stepped_le hs hnear up)

/-- What a number that is no whole one is rounded to. -/
theorem isNearest_roundTo (up : Bool) : IsNearest (stepped d up x / 10 ^ d) (roundTo d up x) := by
  obtain ⟨hten, hexact⟩ := exact_tenTo hd
  have hstep : ∃ y, roundTo d up x = y / tenTo d ∧ isFinite y = true ∧
      exact y = stepped d up x := by
    refine ⟨_, roundTo_of_not_near hnear, ?_⟩
    unfold stepped
    split
    · exact exact_ceil hs
    · exact exact_floor hs
  obtain ⟨y, hround, hy, hvalue⟩ := hstep
  have hdiv := rounded_div hy hten (by rw [hexact]; positivity)
  rw [hvalue, hexact, ← hround] at hdiv
  have hrange := two_pow_lt_outOfRange
  have hle := abs_stepped_div_le hs hnear up
  exact hdiv.isNearest (hdiv.isFinite_iff.2 (by linarith))

/-- The rounded number may be scaled by any of the powers. -/
theorem isFinite_scale_roundTo (up : Bool) (he : e ≤ 15) :
    isFinite (roundTo d up x * tenTo e) = true := by
  have hnearest := isNearest_roundTo hd hs hnear up
  have hrange := two_pow_lt_outOfRange
  have hle := abs_stepped_div_le hs hnear up
  have herror := hnearest.error (by linarith)
  have hleast := least_le_noise.trans noise_le
  rw [isFinite_scale_iff he hnearest.finite]
  have hsize : |exact (roundTo d up x)| ≤ 2 ^ 50 := by
    have htriangle := abs_sub_abs_le_abs_sub (exact (roundTo d up x)) (stepped d up x / 10 ^ d)
    linarith
  have hpow : (10 : ℚ) ^ e ≤ 10 ^ 15 := pow_le_pow_right₀ (by norm_num) he
  rw [abs_mul, abs_of_pos (by positivity : (0 : ℚ) < 10 ^ e)]
  calc |exact (roundTo d up x)| * 10 ^ e ≤ 2 ^ 50 * 10 ^ 15 := by gcongr
    _ < 2 ^ 110 := by norm_num
    _ < outOfRange := hrange

theorem hasDecimals_roundTo (up : Bool) (hde : d ≤ e) (he : e ≤ 15) :
    hasDecimals e (roundTo d up x) = true :=
  hasDecimals_of_onGrid ⟨_, isNearest_roundTo hd hs hnear up⟩ hde he
    (isFinite_scale_roundTo hd hs hnear up he)

include hx

/-- **Rounding up gives no less than the number.** -/
theorem le_roundTo_up : exact x ≤ exact (roundTo d true x) := by
  have hclose := close_scale hd hx hs
  have hslack := slack_lt hs hnear (stepped d true x)
  have hceil : exact (x * tenTo d) ≤ stepped d true x := Int.le_ceil _
  rw [abs_sub_comm, abs_of_nonneg (sub_nonneg.2 hceil)] at hslack
  refine (isNearest_roundTo hd hs hnear true).ge hx ?_
  rw [le_div_iff₀ (by positivity)]
  exact hclose.le_of_slack (by linarith)

/-- **Rounding down gives no more than the number.** -/
theorem roundTo_down_le : exact (roundTo d false x) ≤ exact x := by
  have hclose := close_scale hd hx hs
  have hslack := slack_lt hs hnear (stepped d false x)
  have hfloor : (stepped d false x : ℚ) ≤ exact (x * tenTo d) := Int.floor_le _
  rw [abs_of_nonneg (sub_nonneg.2 hfloor)] at hslack
  refine (isNearest_roundTo hd hs hnear false).le hx ?_
  rw [div_le_iff₀ (by positivity)]
  have hneg := hclose.neg.le_of_slack (z := -(stepped d false x : ℚ)) (by rw [slack_neg]; linarith)
  linarith

/-- Rounding up goes no further than a number of as many decimals. -/
theorem roundTo_up_le {l : Float} (hl : OnGrid d l) (hle : exact x ≤ exact l) :
    exact (roundTo d true x) ≤ exact l := by
  obtain ⟨k, hk, herror⟩ := hl.exists_error
  have hpow : (0 : ℚ) < 10 ^ d := by positivity
  have hb := close_of_error herror hd
  rw [div_mul_cancel₀ _ hpow.ne'] at hb
  refine (isNearest_roundTo hd hs hnear true).mono_le hk ?_
  refine div_le_div_of_nonneg_right (Int.cast_le.2 (not_lt.1 fun hlt => ?_)) hpow.le
  have hks : (k : ℚ) < exact (x * tenTo d) := Int.lt_ceil.1 hlt
  have hnoise := hb.sub_le_slack (close_scale hd hx hs) (by gcongr) hks
  exact absurd (slack_lt hs hnear k) (not_lt.2 hnoise)

/-- Rounding down goes no further than a number of as many decimals. -/
theorem le_roundTo_down {l : Float} (hl : OnGrid d l) (hle : exact l ≤ exact x) :
    exact l ≤ exact (roundTo d false x) := by
  obtain ⟨k, hk, herror⟩ := hl.exists_error
  have hpow : (0 : ℚ) < 10 ^ d := by positivity
  have hb := close_of_error herror hd
  rw [div_mul_cancel₀ _ hpow.ne'] at hb
  refine hk.mono_le (isNearest_roundTo hd hs hnear false) ?_
  refine div_le_div_of_nonneg_right (Int.cast_le.2 (not_lt.1 fun hlt => ?_)) hpow.le
  have hks : exact (x * tenTo d) < k := Int.floor_lt.1 hlt
  have hb' : Close (-k : ℤ) (-(exact l * 10 ^ d)) := by
    rw [Int.cast_neg]
    exact hb.neg
  have hab : -(exact x * 10 ^ d) ≤ -(exact l * 10 ^ d) := neg_le_neg (by gcongr)
  have hnoise := hb'.sub_le_slack (close_scale hd hx hs).neg hab (by push_cast; linarith)
  have habs : |-exact (x * tenTo d) - (-k : ℤ)| = |exact (x * tenTo d) - k| := by
    rw [← abs_neg]
    congr 1
    push_cast
    ring
  rw [habs, slack_neg] at hnoise
  exact absurd (slack_lt hs hnear k) (not_lt.2 hnoise)

end

end Rulebook.Decimal
