import Rulebook.Proofs.Decimal.Conversion
import Rulebook.Proofs.Value.Literal

/-!
# Whole numbers read as decimals

The numeral of a whole number reads as the decimal nearest to it:

    Spells cs z,  |z| < 2 ^ 64  →  readFinite? cs = some x,  exact x = exact (ofInt z)

Only the sign of a zero may differ: `-0` reads as minus zero, and no integer is converted to that.
-/

namespace Rulebook.Decimal

open Text

variable {cs ds : List Char}

theorem number?_numeral (hds : IsNumeral ds) :
    number? ds = some (nearest (digitsValue 0 ds) 0) := by
  have htake : ds.takeWhile isDigit = ds := List.takeWhile_eq_self_iff.2 hds.digits
  have hdrop : ds.dropWhile isDigit = [] := List.dropWhile_eq_nil_iff.2 hds.digits
  simp only [number?, htake, hdrop, hds.ne_nil, false_and, if_false, exponent?, List.append_nil]
  rfl

theorem nearest_whole (n : Nat) : nearest n 0 = ofNat n := by
  by_cases hn : n = 0
  · subst hn
    rfl
  · rw [nearest, if_neg hn, if_neg (by decide), if_neg (by omega)]
    rfl

theorem magnitude?_whole (hds : IsNumeral ds) :
    magnitude? ds = some (ofNat (digitsValue 0 ds)) := by
  have h := magnitude?_numeral hds []
  rwa [List.append_nil, number?_numeral hds, nearest_whole] at h

theorem exact_ofInt_neg {n : Nat} (hn : n < 2 ^ 64) :
    exact (ofInt (-n)) = -exact (ofNat n) := by
  cases n with
  | zero =>
    have hzero : exact (ofInt (-(0 : Nat))) = 0 := exact_ofNat_zero
    rw [hzero, exact_ofNat_zero, neg_zero]
  | succ n => exact exact_neg (isNearest_ofNat hn).finite

theorem readFinite?_of_spells {z : Int} (h : Spells cs z) (hz : z.natAbs < 2 ^ 64) :
    ∃ x, readFinite? cs = some x ∧ isFinite x = true ∧ exact x = exact (ofInt z) := by
  obtain ⟨x, hread, hfinite, hexact⟩ :
      ∃ x, read? cs = some x ∧ isFinite x = true ∧ exact x = exact (ofInt z) := by
    cases h with
    | plain hds =>
      have hread : read? cs = magnitude? cs := by
        unfold read?
        split
        · next ds => exact absurd (List.append_nil _) (hds.append_ne_cons (by decide) [] ds)
        · next ds => exact absurd (List.append_nil _) (hds.append_ne_cons (by decide) [] ds)
        · rfl
      exact ⟨_, hread.trans (magnitude?_whole hds), (isNearest_ofNat hz).finite, rfl⟩
    | plus hds => exact ⟨_, magnitude?_whole hds, (isNearest_ofNat hz).finite, rfl⟩
    | @minus ds hds =>
      have hn : digitsValue 0 ds < 2 ^ 64 := by rwa [Int.natAbs_neg, Int.natAbs_natCast] at hz
      have hfinite := (isNearest_ofNat hn).finite
      refine ⟨_, ?_, isFinite_neg hfinite, (exact_neg hfinite).trans (exact_ofInt_neg hn).symm⟩
      rw [read?, magnitude?_whole hds]
      rfl
  refine ⟨x, ?_, hfinite, hexact⟩
  rw [readFinite?, hread, Option.filter_some, if_pos hfinite]

end Rulebook.Decimal
