import Rulebook.Proofs.Decimal.Whole
import Rulebook.Proofs.Evaluation.Mended

/-!
# Numbers held to a bound

A forced `mx`, `mn` or `b` that rewrites a number writes the bound that the number is beyond
(`number?_of_mended`).  The bound counts as a decimal there, and where an integer takes a whole one,
it takes it as a 64-bit integer:

    forced mx(L) on a decimal                          L
    forced mx(L) on an integer,  L not whole           L
    forced mx(L) on an integer,  L whole               L, held to the range of 64-bit integers

So a whole bound beyond that range, and an integer bound of `b` that no decimal stands for exactly,
are not written as they are.
-/

namespace Rulebook

open Decimal

namespace Value

variable {v : Value} {x : Float}

/-- The number that is written for a decimal `x` in place of `v`. -/
def held (v : Value) (x : Float) : ℚ :=
  if v.kind = .integer ∧ isWhole x = true then max (-2 ^ 63) (min (2 ^ 63 - 1) (exact x))
  else exact x

/-- A bound in the range of 64-bit integers is written as it is. -/
theorem held_eq (h : v.kind = .integer → ∀ n : ℤ, exact x = n → -2 ^ 63 ≤ n ∧ n < 2 ^ 63) :
    held v x = exact x := by
  unfold held
  split
  · next hwhole =>
    obtain ⟨hkind, hwhole⟩ := hwhole
    obtain ⟨-, n, hn⟩ := isWhole_iff.1 hwhole
    obtain ⟨hlow, hhigh⟩ := h hkind n hn
    have hlow' : (-2 ^ 63 : ℚ) ≤ n := by exact_mod_cast hlow
    have hhigh' : (n : ℚ) ≤ 2 ^ 63 - 1 := by exact_mod_cast Int.le_sub_one_of_lt hhigh
    rw [hn, min_eq_right hhigh', max_eq_right hlow']
  · rfl

end Value

namespace Modifier

variable {m : Modifier} {u v w : Value} {p q : ℚ} {x y : Float} {lo hi : Float}

/-! ## Numbers written back -/

theorem CountsAs.asDecimal? (h : CountsAs v x) : v.asDecimal? = some x := by
  cases h <;> rfl

theorem countsAs_of_number? (hv : v.number? = some p) :
    ∃ y, CountsAs v y ∧ Value.Stands v p y := by
  obtain ⟨y, hy, hstands⟩ := Value.exists_stands hv
  cases v with
  | integer n =>
    cases hy
    exact ⟨_, .integer n, hstands⟩
  | decimal y' =>
    cases hy
    exact ⟨_, .decimal y, hstands⟩
  | null | bool | text | date | list | object => cases hv

theorem number?_numberLike (hv : CountsAs v y) (hx : isFinite x = true) :
    (numberLike v x).number? = some (v.held x) := by
  have hdecimal : (Value.decimal x).number? = some (exact x) := if_pos hx
  cases hv with
  | decimal y =>
    rw [Value.held, if_neg (by rintro ⟨⟨⟩, -⟩)]
    exact hdecimal
  | integer n =>
    unfold numberLike Value.held
    dsimp only
    by_cases hwhole : isWhole x = true
    · rw [if_pos hwhole, if_pos ⟨rfl, hwhole⟩, Value.number?, toInt_toInt64 hx,
        exact_of_isWhole hwhole]
      norm_num
    · rw [if_neg hwhole, if_neg (fun h => hwhole h.2)]
      exact hdecimal

/-! ## Bounds -/

theorem clamp_cases (h : InRange lo hi) (hx : isNaN x = false) (hout : ¬(lo ≤ x ∧ x ≤ hi)) :
    clamp lo hi x = lo ∧ exact x < exact lo ∨ clamp lo hi x = hi ∧ exact hi < exact x := by
  obtain ⟨hlo, hhi, hle⟩ := h
  rw [le_iff_exact hlo hx, le_iff_exact hx hhi] at hout
  unfold clamp
  dsimp only
  by_cases hlow : x < lo
  · have hlt := (lt_iff_exact hx hlo).1 hlow
    have hkeep : ¬hi < lo := fun h => not_lt.2 hle ((lt_iff_exact hhi hlo).1 h)
    rw [if_pos hlow, if_neg hkeep]
    exact .inl ⟨rfl, hlt⟩
  · have hge := not_lt.1 (mt (lt_iff_exact hx hlo).2 hlow)
    have hlt : exact hi < exact x := not_le.1 fun h => hout ⟨hge, h⟩
    rw [if_neg hlow, if_pos ((lt_iff_exact hhi hx).2 hlt)]
    exact .inr ⟨rfl, hlt⟩

/-- The bounds of a modifier, as values. -/
def bounds : Modifier → List Value
  | .max limit | .min limit => [.decimal limit]
  | .between low high => [low, high]
  | _ => []

/-- A number that counts as `y` is beyond the bound `u`, which counts as `x`. -/
inductive Beyond : Modifier → Float → Value → Float → Prop
  | max {limit y : Float} : exact limit < exact y → Beyond (.max limit) y (.decimal limit) limit
  | min {limit y : Float} : exact y < exact limit → Beyond (.min limit) y (.decimal limit) limit
  | low {low high : Value} {x y : Float} : low.asDecimal? = some x → exact y < exact x →
      Beyond (.between low high) y low x
  | high {low high : Value} {x y : Float} : high.asDecimal? = some x → exact x < exact y →
      Beyond (.between low high) y high x

theorem Beyond.mem_bounds (h : Beyond m y u x) : u ∈ m.bounds := by
  cases h with
  | max | min | low => exact List.mem_cons_self
  | high => exact List.mem_cons_of_mem _ List.mem_cons_self

theorem Beyond.asDecimal? (h : Beyond m y u x) : u.asDecimal? = some x := by
  cases h with
  | max | min => rfl
  | low hx | high hx => exact hx

/-- A rewritten number is beyond a bound, and the bound is written. -/
theorem exists_beyond (h : Mends m v w) (hy : CountsAs v y) (hfinite : isFinite y = true)
    (hproper : m.Proper) (hbounds : m.bounds ≠ [])
    (hnumbers : ∀ u ∈ m.bounds, ∃ q, u.number? = some q) :
    ∃ u x, Beyond m y u x ∧ w = numberLike v x := by
  have hnan := isNaN_of_isFinite hfinite
  have hcounts {x : Float} (hx : CountsAs v x) : x = y :=
    Option.some.inj (hx.asDecimal?.symm.trans hy.asDecimal?)
  cases h with
  | upper | lower | roundUp | roundDown => exact absurd rfl hbounds
  | cutText | cutList => cases hy
  | max hx hout =>
    cases hcounts hx
    rw [le_iff_exact hnan (isNaN_of_isFinite hproper), not_le] at hout
    exact ⟨_, _, .max hout, rfl⟩
  | min hx hout =>
    cases hcounts hx
    rw [le_iff_exact (isNaN_of_isFinite hproper) hnan, not_le] at hout
    exact ⟨_, _, .min hout, rfl⟩
  | @between low high _ _ hdate hx hout =>
    cases hcounts hx
    obtain ⟨p, hp⟩ := hnumbers low List.mem_cons_self
    obtain ⟨q, hq⟩ := hnumbers high (List.mem_cons_of_mem _ List.mem_cons_self)
    obtain ⟨x, hlow, -⟩ := Value.exists_stands hp
    obtain ⟨z, hhigh, -⟩ := Value.exists_stands hq
    have hlowBound : lowBound low high = x := by rw [lowBound, numericBounds, hlow]; rfl
    have hhighBound : highBound low high = z := by rw [highBound, numericBounds, hhigh]; rfl
    obtain ⟨hclamp, hlt⟩ | ⟨hclamp, hlt⟩ := clamp_cases (hproper hdate) hnan hout
    · exact ⟨low, x, .low hlow (hlowBound ▸ hlt), by rw [hclamp, hlowBound]⟩
    · exact ⟨high, z, .high hhigh (hhighBound ▸ hlt), by rw [hclamp, hhighBound]⟩

/-- **A forced limit on a number writes the bound that the number is beyond**, as the decimal that
stands for the bound; an integer takes a whole one as a 64-bit integer.  So it writes the bound
itself wherever some decimal is the bound, and an integer takes no whole one out of its range. -/
theorem denotes_bound_of_mended (config : Config) (text : String) (r : Rule) (b : Bracket)
    (m : Modifier) (hr : Rule.compile config text = .ok r) (hb : b ∈ r.leaves)
    (hm : m ∈ b.modifiers) (hbounds : m.bounds ≠ [])
    (hnumbers : ∀ u ∈ m.bounds, ∃ q, u.number? = some q) (s : CheckSetting) (v w : Value) (p : ℚ)
    (hv : v.number? = some p) (h : m.check s v = .ok (.mended w)) :
    ∃ u q y x, u ∈ m.bounds ∧ u.number? = some q ∧ Value.Stands v p y ∧ Value.Stands u q x ∧
      Beyond m y u x ∧ w.number? = some (v.held x) ∧
      ((∃ z, isFinite z = true ∧ exact z = q) →
        (v.kind = .integer → ∀ n : ℤ, q = n → -2 ^ 63 ≤ n ∧ n < 2 ^ 63) →
          w.number? = some q) := by
  obtain ⟨y, hy, hvy⟩ := countsAs_of_number? hv
  obtain ⟨u, x, hbeyond, rfl⟩ := exists_beyond (mends_of_check h) hy hvy.nearest.finite
    (proper_of_compile hr hb hm) hbounds hnumbers
  obtain ⟨q, hq⟩ := hnumbers u hbeyond.mem_bounds
  obtain ⟨x', hx', hux⟩ := Value.exists_stands hq
  have hxx : x' = x := Option.some.inj (hx'.symm.trans hbeyond.asDecimal?)
  subst hxx
  have hw := number?_numberLike (x := x') hy hux.nearest.finite
  refine ⟨u, q, y, x', hbeyond.mem_bounds, hq, hvy, hux, hbeyond, hw, fun hexact hrange => ?_⟩
  have hqx := hux.exact_eq hexact
  rw [hw, Value.held_eq (by rwa [hqx]), hqx]

/-- The numbers that the first modifier of a text has as bounds, and the one that it writes. -/
def written? (text : String) (v : Value) : Option (List (Option ℚ) × Option ℚ) :=
  (Rule.firstBracket? {} text).bind fun b => b.modifiers.head?.map fun m =>
    (m.bounds.map Value.number?, (m.mended? ⟨true, false, none⟩ v).bind Value.number?)

theorem exists_of_written? {text : String} {v : Value} {qs : List (Option ℚ)}
    (h : written? text v = some (qs, some q)) : ∃ r b m w, Rule.compile {} text = .ok r ∧
      b ∈ r.leaves ∧ m ∈ b.modifiers ∧ m.bounds.map Value.number? = qs ∧
      m.check ⟨true, false, none⟩ v = .ok (.mended w) ∧ w.number? = some q := by
  obtain ⟨b, hb, h⟩ := Option.bind_eq_some_iff.1 h
  obtain ⟨m, hm, hresult⟩ := Option.map_eq_some_iff.1 h
  obtain ⟨hnumbers, hmended⟩ := Prod.mk.inj hresult
  obtain ⟨w, hw, hnumber⟩ := Option.bind_eq_some_iff.1 hmended
  obtain ⟨r, hr, hleaf⟩ := Rule.exists_of_firstBracket? hb
  exact ⟨r, b, m, w, hr, hleaf, List.mem_of_mem_head? hm, hnumbers, mended?_eq_some_iff.1 hw,
    hnumber⟩

/-- Held to the range from 2 to 5, the integer 9 becomes the bound 5. -/
theorem denotes_bound_of_mended_five : ∃ r b m w, Rule.compile {} "[|b(2,5)-f]" = .ok r ∧
    b ∈ r.leaves ∧ m ∈ b.modifiers ∧ m.check ⟨true, false, none⟩ (.integer 9) = .ok (.mended w) ∧
      w.number? = some 5 ∧ ∃ u y x, u ∈ m.bounds ∧ u.number? = some 5 ∧ Beyond m y u x := by
  have hwritten : written? "[|b(2,5)-f]" (.integer 9) = some ([some 2, some 5], some 5) := by
    decide +kernel
  obtain ⟨r, b, m, w, hr, hb, hm, hnumbers, hw, hfive⟩ := exists_of_written? hwritten
  have hbounds : m.bounds ≠ [] := by
    rintro hnil
    rw [hnil] at hnumbers
    cases hnumbers
  have hmem {u : Value} (hu : u ∈ m.bounds) : u.number? = some 2 ∨ u.number? = some 5 := by
    have hmap := List.mem_map_of_mem (f := Value.number?) hu
    rw [hnumbers] at hmap
    simpa using hmap
  obtain ⟨u, q, y, x, hu, hq, -, hstands, hbeyond, hheld, hexact⟩ :=
    denotes_bound_of_mended {} _ r b m hr hb hm hbounds
      (fun u hu => (hmem hu).elim (fun h => ⟨2, h⟩) fun h => ⟨5, h⟩) _ _ w 9 rfl hw
  refine ⟨r, b, m, w, hr, hb, hm, hw, hfive, u, y, x, hu, ?_, hbeyond⟩
  rcases hmem hu with h2 | h5
  · -- the bound 2 would be written as itself
    have hq2 : q = 2 := Option.some.inj (hq.symm.trans h2)
    subst hq2
    have htwo : exact (ofNat 2) = 2 := exact_ofNat (n := 2) (by decide)
    have hrange : (Value.integer 9).kind = .integer →
        ∀ n : ℤ, (2 : ℚ) = n → -2 ^ 63 ≤ n ∧ n < 2 ^ 63 := by
      intro _ n hn
      have hn' : n = 2 := by exact_mod_cast hn.symm
      omega
    have hwrong := hexact ⟨ofNat 2, by decide +kernel, htwo⟩ hrange
    rw [hfive] at hwrong
    norm_num at hwrong
  · exact h5

/-- The limit -10 ^ 19 is written as the least 64-bit integer, which is above it, and the bound
2 ^ 53 + 1 as 2 ^ 53, which is below it. -/
theorem not_denotes_bound_of_mended :
    (∃ r b m w, Rule.compile {} "[|mx(-10000000000000000000)-f]" = .ok r ∧ b ∈ r.leaves ∧
      m ∈ b.modifiers ∧ m.bounds.map Value.number? = [some (-10000000000000000000)] ∧
      m.check ⟨true, false, none⟩ (.integer 5) = .ok (.mended w) ∧
      w.number? = some (-9223372036854775808)) ∧
    ∃ r b m w, Rule.compile {} "[|b(9007199254740993,9007199254740995)-f]" = .ok r ∧
      b ∈ r.leaves ∧ m ∈ b.modifiers ∧
      m.bounds.map Value.number? = [some 9007199254740993, some 9007199254740995] ∧
      m.check ⟨true, false, none⟩ (.integer 5) = .ok (.mended w) ∧
      w.number? = some 9007199254740992 :=
  ⟨exists_of_written? (by decide +kernel), exists_of_written? (by decide +kernel)⟩

end Modifier

end Rulebook
