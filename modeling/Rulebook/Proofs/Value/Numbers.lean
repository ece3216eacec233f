import Rulebook.Proofs.Decimal.Conversion
import Rulebook.Value.Order

/-!
# Comparing numbers

Two integers are compared as such.  In any other pair of numbers an integer counts as the decimal
nearest to it, and minus zero comes before zero (`compareLoose_numbers`).  Beyond `2 ^ 53` numbers
that differ may be equal in such a pair:

    compareLoose ci (.integer (2 ^ 53 + 1)) (.decimal (2 ^ 53)) = .eq
-/

namespace Rulebook.Value

open Decimal

/-- The number that an integer or a finite decimal is. -/
def number? : Value → Option ℚ
  | .integer n => some n.toInt
  | .decimal x => if isFinite x then some (exact x) else none
  | _ => none

/-- Zero with a minus sign. -/
def IsMinusZero : Value → Prop
  | .decimal x => exact x = 0 ∧ isNegative x = true
  | _ => False

/-- The decimal `x` stands for a number in a comparison with a decimal. -/
structure Stands (a : Value) (p : ℚ) (x : Float) : Prop where
  nearest : IsNearest p x
  /-- A decimal stands for itself. -/
  self : ∀ y, a = .decimal y → x = y
  /-- What stands for an integer is no minus zero. -/
  sign : ∀ n, a = .integer n → isNegative x = decide (n.toInt < 0)

variable {a b : Value} {p q : ℚ} {x y : Float}

theorem exists_stands (h : a.number? = some p) :
    ∃ x, a.asDecimal? = some x ∧ Stands a p x := by
  cases a with
  | integer n =>
    cases h
    refine ⟨_, rfl, isNearest_toInt n, nofun, ?_⟩
    rintro _ ⟨⟩
    exact isNegative_ofInt (natAbs_toInt_lt n)
  | decimal x =>
    rw [number?, Option.ite_none_right_eq_some] at h
    obtain ⟨hfinite, h⟩ := h
    cases h
    refine ⟨x, rfl, .self hfinite, ?_, nofun⟩
    rintro _ ⟨⟩
    rfl
  | null | bool | text | date | list | object => cases h

theorem Stands.exact_eq (h : Stands a p x) (hp : ∃ y, isFinite y = true ∧ exact y = p) :
    exact x = p := by
  obtain ⟨y, hy, hexact⟩ := hp
  exact h.nearest.exact_eq hy hexact

/-- The sign of what stands for zero. -/
theorem Stands.isNegative_iff (h : Stands a p x) (ha : a.number? = some p) (hzero : exact x = 0)
    (hp : p = 0) : isNegative x = true ↔ a.IsMinusZero := by
  cases a with
  | integer n =>
    cases ha
    have hn : n.toInt = 0 := by exact_mod_cast hp
    rw [h.sign n rfl, hn]
    exact iff_of_false (by decide) id
  | decimal y =>
    rw [h.self y rfl] at hzero ⊢
    exact (and_iff_right hzero).symm
  | null | bool | text | date | list | object => cases ha

/-! ## Order -/

theorem compare_toInt (m n : Int64) : compare m n = compare (m.toInt : ℚ) n.toInt := by
  have hcompare : compare m n = compareOfLessAndEq m n := rfl
  have hlt : m < n ↔ m.toInt < n.toInt := Int64.lt_iff_toInt_lt
  have heq : m.toInt = n.toInt ↔ m = n := Int64.toInt_inj
  rw [hcompare, compareOfLessAndEq]
  rcases lt_trichotomy m.toInt n.toInt with h | h | h
  · rw [if_pos (hlt.2 h), compare_lt_iff_lt.2 (by exact_mod_cast h)]
  · rw [if_neg (mt hlt.1 (by omega)), if_pos (heq.1 h), h, compare_eq_iff_eq.2 rfl]
  · rw [if_neg (mt hlt.1 (by omega)), if_neg (mt heq.2 (by omega)),
      compare_gt_iff_gt.2 (by exact_mod_cast h)]

theorem compareLoose_integers (ci : Bool) (m n : Int64) :
    compareLoose ci (.integer m) (.integer n) = compare (m.toInt : ℚ) n.toInt := compare_toInt m n

theorem compareLoose_ne_lt_iff {ci : Bool} {m n : Int64} :
    compareLoose ci (.integer m) (.integer n) ≠ .lt ↔ n ≤ m := by
  rw [compareLoose_integers, compare_ge_iff_ge, Int64.le_iff_toInt_le]
  exact Int.cast_le

theorem compareLoose_ne_gt_iff {ci : Bool} {m n : Int64} :
    compareLoose ci (.integer m) (.integer n) ≠ .gt ↔ m ≤ n := by
  rw [compareLoose_integers, compare_le_iff_le, Int.cast_le, Int64.le_iff_toInt_le]

theorem compareLoose_of_asDecimal {ci : Bool} (hx : a.asDecimal? = some x)
    (hy : b.asDecimal? = some y) (h : ¬(a.asInteger?.isSome = true ∧ b.asInteger?.isSome = true)) :
    compareLoose ci a b =
      (compare (exact x) (exact y)).then (compare (isNegative y) (isNegative x)) := by
  have hnull : a.isNull = false := by
    cases a <;> first | rfl | cases hx
  have htyped : compareTyped? a b = some (order x y) := by
    unfold compareTyped?
    rw [hx, hy]
    split
    · next hi hj => simp [hi, hj] at h
    · rfl
  rw [compareLoose, hnull, htyped, ← order_eq]
  rfl

theorem kind_eq_integer_iff (h : a.number? = some p) :
    a.kind = .integer ↔ a.asInteger?.isSome = true := by
  cases a with
  | integer n => exact iff_of_true rfl rfl
  | decimal x => exact iff_of_false nofun nofun
  | null | bool | text | date | list | object => cases h

/-- Decimals that stand for a number that both stand for have the same sign, unless it is zero. -/
theorem isNegative_congr (h : exact x = exact y) (h0 : exact x ≠ 0) :
    isNegative x = isNegative y := by
  have hx := Decimal.exact_eq x
  have hy := Decimal.exact_eq y
  have hsize := (parts x).size_nonneg
  have hsize' := (parts y).size_nonneg
  by_contra hne
  refine h0 ?_
  cases hxn : isNegative x <;> cases hyn : isNegative y <;> rw [hxn, hyn] at hne
  case false.false | true.true => exact absurd rfl hne
  all_goals
    rw [hxn] at hx
    rw [hyn] at hy
    simp only [Bool.false_eq_true, if_true, if_false] at hx hy
    linarith

/-- **Numbers are compared as integers, or as the decimals that stand for them**: in the order of
the numbers wherever a decimal stands exactly for each of them, but for zeros of different signs. -/
theorem compareLoose_numbers (ci : Bool) (ha : a.number? = some p) (hb : b.number? = some q) :
    (a.kind = .integer ∧ b.kind = .integer → compareLoose ci a b = compare p q) ∧
      (¬(a.kind = .integer ∧ b.kind = .integer) → ∃ x y, Stands a p x ∧ Stands b q y ∧
        compareLoose ci a b =
          (compare (exact x) (exact y)).then (compare (isNegative y) (isNegative x))) ∧
      ((∃ x, isFinite x = true ∧ exact x = p) → (∃ y, isFinite y = true ∧ exact y = q) →
        (p = 0 → q = 0 → (a.IsMinusZero ↔ b.IsMinusZero)) → compareLoose ci a b = compare p q) := by
  have hintegers : a.kind = .integer ∧ b.kind = .integer → compareLoose ci a b = compare p q := by
    rintro ⟨hka, hkb⟩
    cases a <;> cases hka
    cases b <;> cases hkb
    cases ha
    cases hb
    exact compareLoose_integers ci _ _
  have hdecimals : ¬(a.kind = .integer ∧ b.kind = .integer) → ∃ x y, Stands a p x ∧ Stands b q y ∧
      compareLoose ci a b =
        (compare (exact x) (exact y)).then (compare (isNegative y) (isNegative x)) := by
    intro hkind
    obtain ⟨x, hx, hstands⟩ := exists_stands ha
    obtain ⟨y, hy, hstands'⟩ := exists_stands hb
    rw [kind_eq_integer_iff ha, kind_eq_integer_iff hb] at hkind
    exact ⟨x, y, hstands, hstands', compareLoose_of_asDecimal hx hy hkind⟩
  refine ⟨hintegers, hdecimals, fun hp hq hzero => ?_⟩
  by_cases hkind : a.kind = .integer ∧ b.kind = .integer
  · exact hintegers hkind
  obtain ⟨x, y, hx, hy, hcompare⟩ := hdecimals hkind
  rw [hcompare, hx.exact_eq hp, hy.exact_eq hq]
  rcases lt_trichotomy p q with h | h | h
  · rw [compare_lt_iff_lt.2 h]
    rfl
  · have hsign : isNegative x = isNegative y := by
      by_cases h0 : p = 0
      · rw [Bool.eq_iff_iff, hx.isNegative_iff ha ((hx.exact_eq hp).trans h0) h0,
          hy.isNegative_iff hb ((hy.exact_eq hq).trans (h ▸ h0)) (h ▸ h0)]
        exact hzero h0 (h ▸ h0)
      · refine isNegative_congr ?_ ?_
        · rw [hx.exact_eq hp, hy.exact_eq hq, h]
        · rwa [hx.exact_eq hp]
    rw [compare_eq_iff_eq.2 h, hsign, compare_eq_iff_eq.2 rfl]
    rfl
  · rw [compare_gt_iff_gt.2 h]
    rfl

/-- 3 is greater than 2.5. -/
theorem compareLoose_three :
    let a : Value := .integer 3
    let b : Value := .decimal 2.5
    a.number? = some 3 ∧ b.number? = some (5 / 2) ∧ compareLoose false a b = .gt := by
  intro a b
  have hparts : parts 2.5 = ⟨false, 5 * 2 ^ 50, -51⟩ := by decide +kernel
  have hfinite : isFinite 2.5 = true := by decide +kernel
  have hexact : exact 2.5 = 5 / 2 := by
    rw [exact, hparts]
    show ((5 * 2 ^ 50 : ℕ) : ℚ) * 2 ^ (-51 : ℤ) = _
    norm_num
  have ha : a.number? = some 3 := rfl
  have hb : b.number? = some (5 / 2) := by
    show (if isFinite 2.5 then some (exact 2.5) else none) = _
    rw [if_pos hfinite, hexact]
  have hthree : exact (ofInt 3) = 3 := exact_ofInt (by decide)
  refine ⟨ha, hb, ?_⟩
  rw [(compareLoose_numbers false ha hb).2.2 ⟨ofInt 3, by decide +kernel, hthree⟩
    ⟨2.5, hfinite, hexact⟩ (by norm_num)]
  exact compare_gt_iff_gt.2 (by norm_num)

/-- `2 ^ 53 + 1` is equal to the decimal `2 ^ 53`, and 0 is greater than minus zero. -/
theorem compareLoose_rounded :
    let a : Value := .integer 9007199254740993
    let b : Value := .decimal 9007199254740992
    let zero : Value := .integer 0
    let minusZero : Value := .decimal (-0)
    (∃ p q, a.number? = some p ∧ b.number? = some q ∧ q < p ∧ compareLoose false a b = .eq) ∧
      zero.number? = some 0 ∧ minusZero.number? = some 0 ∧
      compareLoose false zero minusZero = .gt := by
  intro a b zero minusZero
  have hfinite : isFinite 9007199254740992 = true := by decide +kernel
  have hexact : exact 9007199254740992 = 2 ^ 53 := by
    have h := exact_ofNat (n := 2 ^ 53) (Nat.le_refl _)
    push_cast at h
    exact h
  have hb : b.number? = some (2 ^ 53) := by
    show (if isFinite 9007199254740992 then some (exact 9007199254740992) else none) = _
    rw [if_pos hfinite, hexact]
  have hminus : minusZero.number? = some 0 := by
    have hzero : isFinite (ofNat 0) = true := by decide +kernel
    show (if isFinite (-(ofNat 0)) then some (exact (-(ofNat 0))) else none) = _
    rw [if_pos (isFinite_neg hzero), exact_neg hzero, exact_ofNat_zero, neg_zero]
  refine ⟨⟨_, _, rfl, hb, ?_, by decide +kernel⟩, rfl, hminus, by decide +kernel⟩
  show (2 ^ 53 : ℚ) < ((9007199254740993 : Int64).toInt : ℚ)
  have htoInt : (9007199254740993 : Int64).toInt = 9007199254740993 := by decide +kernel
  rw [htoInt]
  norm_num

end Rulebook.Value
