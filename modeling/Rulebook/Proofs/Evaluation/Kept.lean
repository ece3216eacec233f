import Rulebook.Proofs.Decimal.Scaled
import Rulebook.Proofs.Evaluation.Bound
import Rulebook.Proofs.Text.Case

/-!
# What mending establishes and what it keeps

A forced modifier that rewrites a value leaves one that it passes itself, where it can write what it
wants to (`MendsWell`):

    Mends m v w  →  MendsWell m v  →  Conforms s m w

A modifier that was applied before it still passes, unless the two are at odds (`Undoes`):

    Mends m v w  →  Conforms s m₀ v  →  ¬Undoes m v m₀  →  Conforms s m₀ w

At odds are upper and lower case, limits of which no number is in both, limits that are no numbers
of as many decimals as are rounded to, and whatever was said of a text that is rounded.  Whether the
later modifier could write what it wants to is asked where it rounds only (`Spares`): one that holds
to a bound writes a number that is no farther from the one before than the bound.
-/

namespace Rulebook

open Decimal

namespace Modifier

variable {s : CheckSetting} {m m₀ : Modifier} {v w : Value} {x y : Float} {digits : Nat}

/-! ## Numbers -/

theorem CountsAs.unique (h : CountsAs v x) (h' : CountsAs v y) : x = y :=
  Except.ok.inj (h.measure.symm.trans h'.measure)

theorem CountsAs.isPresent (h : CountsAs v x) : isPresent v = true := by
  cases h <;> rfl

theorem conforms_max_iff {limit : Float} (hx : CountsAs v x) :
    Conforms s (.max limit) v ↔ x ≤ limit := by
  refine ⟨fun h => ?_, .max hx⟩
  cases h with
  | null | maxText | maxList => cases hx
  | max hy hle => exact hy.unique hx ▸ hle

theorem conforms_min_iff {limit : Float} (hx : CountsAs v x) :
    Conforms s (.min limit) v ↔ limit ≤ x := by
  refine ⟨fun h => ?_, .min hx⟩
  cases h with
  | null | minText | minList => cases hx
  | min hy hle => exact hy.unique hx ▸ hle

/-- **What is written for a bound counts as the bound**, unless no 64-bit integer does. -/
theorem exists_countsAs_numberLike (hv : CountsAs v x) (hy : isNaN y = false)
    (hrange : v.kind = .integer → |exact y| ≤ 2 ^ 63) :
    ∃ z, CountsAs (numberLike v y) z ∧ isNaN z = false ∧ exact z = exact y := by
  cases hv with
  | decimal => exact ⟨y, .decimal y, hy, rfl⟩
  | integer n =>
    unfold numberLike
    dsimp only
    by_cases hwhole : isWhole y = true
    · obtain ⟨hlow, hhigh⟩ := abs_le.1 (hrange rfl)
      rw [if_pos hwhole]
      exact ⟨_, .integer _, isNaN_of_isFinite (isNearest_toInt _).finite,
        exact_ofInt_toInt64 hwhole hlow hhigh⟩
    · rw [if_neg hwhole]
      exact ⟨y, .decimal y, hy, rfl⟩

theorem isNumber_numberLike (v : Value) (y : Float) : (numberLike v y).isNumber = true := by
  unfold numberLike
  split
  · split <;> rfl
  · rfl

/-- The cast of a whole number is no farther from an integer than the number. -/
theorem toInt64_toward (n : Int64) (hwhole : isWhole y = true) :
    (near n ≤ exact y → near n ≤ near (toInt64 y) ∧ near (toInt64 y) ≤ exact y) ∧
      (exact y ≤ near n → exact y ≤ near (toInt64 y) ∧ near (toInt64 y) ≤ near n) := by
  have hcast := toInt_toInt64 (isWhole_iff.1 hwhole).1
  have hexact := exact_of_isWhole hwhole
  generalize (parts y).truncated = k at hcast hexact
  obtain ⟨hlow, hhigh⟩ := abs_le.1 (abs_exact_ofInt_le n)
  obtain ⟨hleast, hgreatest⟩ := abs_le.1 (abs_exact_ofInt_le (toInt64 y))
  rcases lt_or_ge (exact y) (-2 ^ 63) with hbelow | hleast'
  · -- the least integer is written
    have hk : k < -2 ^ 63 := by exact_mod_cast hexact ▸ hbelow
    have hle : toInt64 y ≤ n := by
      have hn := n.le_toInt
      rw [Int64.le_iff_toInt_le, hcast]
      omega
    exact ⟨fun h => absurd (h.trans_lt hbelow) (not_lt.2 hlow),
      fun _ => ⟨hbelow.le.trans hleast, near_le_iff.2 (.inl hle)⟩⟩
  rcases lt_or_ge (2 ^ 63) (exact y) with habove | hgreatest'
  · -- the greatest integer is written
    have hk : 2 ^ 63 < k := by exact_mod_cast hexact ▸ habove
    have hle : n ≤ toInt64 y := by
      have hn := n.toInt_lt
      rw [Int64.le_iff_toInt_le, hcast]
      omega
    exact ⟨fun _ => ⟨near_le_iff.2 (.inl hle), hgreatest.trans habove.le⟩,
      fun h => absurd (habove.trans_le h) (not_lt.2 hhigh)⟩
  · have hsame : near (toInt64 y) = exact y := exact_ofInt_toInt64 hwhole hleast' hgreatest'
    rw [hsame]
    exact ⟨fun h => ⟨h, le_rfl⟩, fun h => ⟨le_rfl, h⟩⟩

/-- **What is written for a bound is no farther off than the bound**, also where no 64-bit integer
counts as the bound. -/
theorem exists_countsAs_toward (hv : CountsAs v x) (hy : isNaN y = false) :
    ∃ z, CountsAs (numberLike v y) z ∧ isNaN z = false ∧
      (exact x ≤ exact y → exact x ≤ exact z ∧ exact z ≤ exact y) ∧
      (exact y ≤ exact x → exact y ≤ exact z ∧ exact z ≤ exact x) := by
  cases hv with
  | decimal => exact ⟨y, .decimal y, hy, fun h => ⟨h, le_rfl⟩, fun h => ⟨le_rfl, h⟩⟩
  | integer n =>
    unfold numberLike
    dsimp only
    by_cases hwhole : isWhole y = true
    · rw [if_pos hwhole]
      exact ⟨_, .integer _, isNaN_of_isFinite (isNearest_toInt _).finite, toInt64_toward n hwhole⟩
    · rw [if_neg hwhole]
      exact ⟨y, .decimal y, hy, fun h => ⟨h, le_rfl⟩, fun h => ⟨le_rfl, h⟩⟩

theorem CountsAs.abs_exact_le (h : CountsAs v x) (hkind : v.kind = .integer) :
    |exact x| ≤ 2 ^ 63 := by
  cases h with
  | integer n => exact abs_exact_ofInt_le n
  | decimal => cases hkind

/-! ## What mending establishes -/

/-- What would be written for the value is in the bound, and is a number. -/
def MendsWell : Modifier → Value → Prop
  | .max limit, .text _ | .max limit, .list _ => 0 ≤ exact limit
  | .max limit, .integer _ => -2 ^ 63 ≤ exact limit
  | .min limit, .integer _ => exact limit ≤ 2 ^ 63
  | .between low high, .integer _ =>
    exact (lowBound low high) ≤ 2 ^ 63 ∧ -2 ^ 63 ≤ exact (highBound low high)
  | .between _ _, .decimal x => isNaN x = false
  | .roundUp digits, v | .roundDown digits, v =>
    ∀ x, ReadsAs v x → isFinite x = true ∧ isFinite (x * tenTo digits) = true
  | _, _ => True

/-- What is left of a text or list by a limit is within the limit. -/
theorem ofNat_le_of_room {limit : Float} {n : Nat} (hlimit : isFinite limit = true)
    (h0 : 0 ≤ exact limit) (hn : n ≤ room limit) : ofNat n ≤ limit := by
  have hzero : isFinite 0 = true ∧ exact 0 = 0 := by
    have hparts : parts 0 = parts (ofNat 0) := by decide +kernel
    refine ⟨by decide +kernel, ?_⟩
    rw [exact, hparts]
    exact exact_ofNat_zero
  obtain ⟨hlarger, hsize⟩ := exact_larger hlimit hzero.1
  rw [hzero.2, max_eq_left h0] at hsize
  obtain ⟨hlt, hle⟩ := toCount_floor_le hlarger (by rw [hsize]; exact h0)
  rw [hsize] at hle
  have hnearest := isNearest_ofNat (n := n) (lt_of_le_of_lt hn hlt)
  rw [le_iff hnearest.finite hlimit]
  exact hnearest.le hlimit ((Nat.cast_le.2 hn).trans hle)

theorem abs_greatest_le {limit : Float} (hx : CountsAs v x) (hlimit : isFinite limit = true)
    (hgt : ¬x ≤ limit) (hwell : MendsWell (.max limit) v) (hkind : v.kind = .integer) :
    |exact limit| ≤ 2 ^ 63 := by
  have hle := (abs_le.1 (hx.abs_exact_le hkind)).2
  cases hx with
  | decimal => cases hkind
  | integer n =>
    rw [le_iff (isNearest_toInt n).finite hlimit] at hgt
    exact abs_le.2 ⟨hwell, (not_le.1 hgt).le.trans hle⟩

theorem abs_least_le {limit : Float} (hx : CountsAs v x) (hlimit : isFinite limit = true)
    (hlt : ¬limit ≤ x) (hwell : MendsWell (.min limit) v) (hkind : v.kind = .integer) :
    |exact limit| ≤ 2 ^ 63 := by
  have hle := (abs_le.1 (hx.abs_exact_le hkind)).1
  cases hx with
  | decimal => cases hkind
  | integer n =>
    rw [le_iff hlimit (isNearest_toInt n).finite] at hlt
    exact abs_le.2 ⟨hle.trans (not_le.1 hlt).le, hwell⟩

/-- The bound that is written, of a range of numbers. -/
theorem exists_written {low high : Value}
    (hrange : InRange (lowBound low high) (highBound low high)) (hx : CountsAs v x)
    (hwell : MendsWell (.between low high) v)
    (hout : ¬(lowBound low high ≤ x ∧ x ≤ highBound low high)) : isNaN x = false ∧
      ∃ z, CountsAs (numberLike v (clamp (lowBound low high) (highBound low high) x)) z ∧
        isNaN z = false ∧ (exact z = exact (lowBound low high) ∧ exact x < exact z ∨
          exact z = exact (highBound low high) ∧ exact z < exact x) := by
  have hnan : isNaN x = false := by
    cases hx with
    | integer n => exact isNaN_of_isFinite (isNearest_toInt n).finite
    | decimal => exact hwell
  have hwithin : v.kind = .integer →
      exact (lowBound low high) ≤ 2 ^ 63 ∧ -2 ^ 63 ≤ exact (highBound low high) := by
    intro hkind
    cases hx with
    | integer => exact hwell
    | decimal => cases hkind
  refine ⟨hnan, ?_⟩
  rcases clamp_cases hrange hnan hout with ⟨hwritten, hlt⟩ | ⟨hwritten, hlt⟩
  · have hlow (hkind : v.kind = .integer) : |exact (lowBound low high)| ≤ 2 ^ 63 := by
      have hle := (abs_le.1 (hx.abs_exact_le hkind)).1
      exact abs_le.2 ⟨hle.trans hlt.le, (hwithin hkind).1⟩
    obtain ⟨z, hz, hznan, hexact⟩ := exists_countsAs_numberLike hx hrange.low_number hlow
    rw [hwritten]
    exact ⟨z, hz, hznan, .inl ⟨hexact, hexact ▸ hlt⟩⟩
  · have hhigh (hkind : v.kind = .integer) : |exact (highBound low high)| ≤ 2 ^ 63 := by
      have hle := (abs_le.1 (hx.abs_exact_le hkind)).2
      exact abs_le.2 ⟨(hwithin hkind).2, hlt.le.trans hle⟩
    obtain ⟨z, hz, hznan, hexact⟩ := exists_countsAs_numberLike hx hrange.high_number hhigh
    rw [hwritten]
    exact ⟨z, hz, hznan, .inr ⟨hexact, hexact ▸ hlt⟩⟩

/-- **A modifier passes what it wrote.** -/
theorem conforms_of_mends (h : Mends m v w) (hwell : MendsWell m v) (hproper : m.Proper) :
    Conforms s m w := by
  cases h with
  | upper => exact .upper (Text.upper_upper _)
  | lower => exact .lower (Text.lower_lower _)
  | cutText =>
    refine .maxText (ofNat_le_of_room hproper hwell ?_)
    rw [String.length_ofList]
    exact List.length_take_le _ _
  | cutList => exact .maxList (ofNat_le_of_room hproper hwell (List.length_take_le _ _))
  | @max limit x v hx hgt =>
    have hlimit := isNaN_of_isFinite hproper
    have hrange := abs_greatest_le hx hproper hgt hwell
    obtain ⟨z, hz, hznan, hexact⟩ := exists_countsAs_numberLike hx hlimit hrange
    exact .max hz ((le_iff_exact hznan hlimit).2 hexact.le)
  | @min limit x v hx hlt =>
    have hlimit := isNaN_of_isFinite hproper
    have hrange := abs_least_le hx hproper hlt hwell
    obtain ⟨z, hz, hznan, hexact⟩ := exists_countsAs_numberLike hx hlimit hrange
    exact .min hz ((le_iff_exact hlimit hznan).2 hexact.ge)
  | roundUp hread hnear =>
    obtain ⟨-, hs⟩ := hwell _ hread
    exact .roundUp (.decimal _) (hasDecimals_roundTo hproper hs hnear true le_rfl hproper)
  | roundDown hread hnear =>
    obtain ⟨-, hs⟩ := hwell _ hread
    exact .roundDown (.decimal _) (hasDecimals_roundTo hproper hs hnear false le_rfl hproper)
  | between hdate hx hout =>
    obtain ⟨-, z, hz, hznan, hwritten⟩ := exists_written (hproper hdate) hx hwell hout
    obtain ⟨hlow, hhigh, hle⟩ := hproper hdate
    refine .between hdate hz.measure ?_
    rw [le_iff_exact hlow hznan, le_iff_exact hznan hhigh]
    rcases hwritten with ⟨hexact, -⟩ | ⟨hexact, -⟩
    · exact ⟨hexact.ge, hexact.le.trans hle⟩
    · exact ⟨hle.trans hexact.ge, hexact.le⟩

/-! ## What mending keeps -/

/-- What `m` makes of `v` need not pass the modifier `m₀`, which was applied before. -/
inductive Undoes : Modifier → Value → Modifier → Prop
  /-- A text that is in lower case is not in upper case. -/
  | lower (t : String) : Undoes .lower (.text t) .upper
  /-- The number is raised above the limit. -/
  | min {least limit : Float} (v : Value) : exact limit < exact least →
      Undoes (.min least) v (.max limit)
  /-- A text becomes a number. -/
  | ofText {digits : Nat} {m m₀ : Modifier} (t : String) : m.Rounds digits →
      m₀.code ∈ [.upper, .lower, .max, .min, .email] → Undoes m (.text t) m₀
  /-- Another number need not be one of the members. -/
  | rounded {digits : Nat} {m m₀ : Modifier} (v : Value) : m.Rounds digits →
      m₀.code ∈ [.oneOf, .inTable] → Undoes m v m₀
  /-- A limit with more decimals may be passed by. -/
  | roundedUp {digits : Nat} {limit : Float} (x : Float) : ¬OnGrid digits limit →
      Undoes (.roundUp digits) (.decimal x) (.max limit)
  | roundedDown {digits : Nat} {limit : Float} (x : Float) : ¬OnGrid digits limit →
      Undoes (.roundDown digits) (.decimal x) (.min limit)
  /-- What is left has as many decimals as the later modifier allows. -/
  | finer {digits digits' : Nat} (v : Value) : digits < digits' →
      Undoes (.roundDown digits') v (.roundUp digits)
  /-- Another number need not be one of the members. -/
  | bound {low high : Value} {m₀ : Modifier} (v : Value) : m₀.code ∈ [.oneOf, .inTable] →
      Undoes (.between low high) v m₀
  /-- The range is above the limit. -/
  | above {low high : Value} {limit : Float} (v : Value) :
      exact limit < exact (lowBound low high) → Undoes (.between low high) v (.max limit)
  /-- The range is below the limit. -/
  | below {low high : Value} {limit : Float} (v : Value) :
      exact (highBound low high) < exact limit → Undoes (.between low high) v (.min limit)
  /-- The bound that is written has more decimals. -/
  | fraction {low high v : Value} {digits : Nat} {m₀ : Modifier} {x : Float} : m₀.Rounds digits →
      CountsAs v x → hasDecimals digits (clamp (lowBound low high) (highBound low high) x) = false →
      Undoes (.between low high) v m₀

/-- Whether `m` can write what it wants to bears on `m₀` where it is `m₀` itself, or rounds after
it. -/
def BearsOn (m m₀ : Modifier) : Prop :=
  m = m₀ ∨ m₀.code.rank < m.code.rank ∧ m.code ∈ [.roundUp, .roundDown]

/-- What `m` makes of `v` does not keep `m₀` from passing in the end. -/
def Spares (m : Modifier) (v : Value) (m₀ : Modifier) : Prop :=
  (BearsOn m m₀ → MendsWell m v) ∧ ¬Undoes m v m₀

/-- Upper case and an upper limit undo nothing. -/
theorem Undoes.code_mem (h : Undoes m v m₀) :
    m.code ∈ [.lower, .min, .roundUp, .roundDown, .between] := by
  cases h with
  | ofText _ hm | rounded _ hm => rcases hm with rfl | rfl <;> simp [code]
  | lower | min | roundedUp | roundedDown | finer | bound | above | below | fraction =>
    simp [code]

/-- A number written in place of another. -/
theorem conforms_of_number (hx : CountsAs v x) (hy : CountsAs w y) (h₀ : Conforms s m₀ v)
    (hmax : ∀ limit, m₀ = .max limit → x ≤ limit → y ≤ limit)
    (hmin : ∀ limit, m₀ = .min limit → limit ≤ x → limit ≤ y)
    (hrest : m₀.code ∈ [.oneOf, .inTable, .roundUp, .roundDown, .between] → Conforms s m₀ w) :
    Conforms s m₀ w := by
  cases m₀ with
  | upper | lower | email => cases hx <;> cases h₀
  | ignoreCase => exact .ignoreCase w
  | required => exact .required hy.isPresent
  | max limit => exact .max hy (hmax limit rfl ((conforms_max_iff hx).1 h₀))
  | min limit => exact .min hy (hmin limit rfl ((conforms_min_iff hx).1 h₀))
  | oneOf | inTable | roundUp | roundDown | between => exact hrest (by simp [code])

/-- A number that was rounded, in place of a number or a text. -/
theorem conforms_of_rounded (hm : m.Rounds digits) (hread : ReadsAs v x)
    (hrank : m₀.code.rank < m.code.rank) (hundo : ¬Undoes m v m₀) (h₀ : Conforms s m₀ v)
    (hmax : ∀ limit, m₀ = .max limit → v = .decimal x → x ≤ limit → y ≤ limit)
    (hmin : ∀ limit, m₀ = .min limit → v = .decimal x → limit ≤ x → limit ≤ y)
    (hup : ∀ digits, m₀ = .roundUp digits → hasDecimals digits y = true) :
    Conforms s m₀ (.decimal y) := by
  have hrest : m₀.code ∈ [.oneOf, .inTable, .roundUp, .roundDown, .between] →
      Conforms s m₀ (.decimal y) := by
    intro hcode
    cases m₀ with
    | oneOf | inTable => exact absurd (.rounded v hm (by simp [code])) hundo
    | roundUp digits => exact .roundUp (.decimal y) (hup digits rfl)
    | roundDown | between => rcases hm with rfl | rfl <;> simp [code, ModifierCode.rank] at hrank
    | upper | lower | ignoreCase | max | min | email | required => simp [code] at hcode
  cases hread with
  | decimal =>
    exact conforms_of_number (.decimal x) (.decimal y) h₀
      (fun limit hlimit => hmax limit hlimit rfl) (fun limit hlimit => hmin limit hlimit rfl) hrest
  | text =>
    cases m₀ with
    | upper | lower | max | min | email =>
      exact absurd (.ofText _ hm (by simp [code])) hundo
    | ignoreCase => exact .ignoreCase _
    | required => exact .required rfl
    | oneOf | inTable | roundUp | roundDown | between => exact hrest (by simp [code])

theorem conforms_numberLike (hm : m.Rounds digits) (hx : CountsAs v x)
    (h : hasDecimals digits y = true) : Conforms s m (numberLike v y) := by
  unfold numberLike
  cases hx with
  | decimal =>
    rcases hm with rfl | rfl
    · exact .roundUp (.decimal y) h
    · exact .roundDown (.decimal y) h
  | integer =>
    dsimp only
    split <;> rcases hm with rfl | rfl
    · exact .wholeUp _ _
    · exact .wholeDown _ _
    · exact .roundUp (.decimal y) h
    · exact .roundDown (.decimal y) h

theorem before_max (h : m.code.rank < 3) : m = .upper ∨ m = .lower ∨ m = .ignoreCase := by
  cases m <;> simp [code, ModifierCode.rank] at h ⊢

/-! ### One modifier after another -/

section
variable {least : Float} {low high : Value} (hproper₀ : m₀.Proper) (h₀ : Conforms s m₀ v)
include hproper₀ h₀

/-- After a lower limit. -/
theorem conforms_after_min (hx : CountsAs v x) (hlt : ¬least ≤ x) (hproper : isFinite least = true)
    (hrank : m₀.code.rank < ModifierCode.min.rank) (hundo : ¬Undoes (.min least) v m₀) :
    Conforms s m₀ (numberLike v least) := by
  have hnumber := isNaN_of_isFinite hproper
  obtain ⟨z, hz, hznan, htoward, -⟩ := exists_countsAs_toward hx hnumber
  refine conforms_of_number hx hz h₀ ?_ ?_ ?_
  · rintro limit rfl hle
    have hlimit : exact least ≤ exact limit := not_lt.1 fun h => hundo (.min v h)
    rw [le_iff_exact hnumber (isNaN_of_le hle).1, not_le] at hlt
    rw [le_iff_exact hznan (isNaN_of_isFinite hproper₀)]
    exact (htoward hlt.le).2.trans hlimit
  · rintro limit rfl
    exact absurd hrank (lt_irrefl _)
  · intro hcode
    cases m₀ <;> simp [code, ModifierCode.rank] at hrank hcode

/-- After rounding up: a number is not less than before, and not above a limit of as many
decimals. -/
theorem conforms_after_roundUp (hread : ReadsAs v x) (hnear : hasDecimals digits x = false)
    (hwell : MendsWell (.roundUp digits) v) (hd : digits ≤ 15)
    (hrank : m₀.code.rank < ModifierCode.roundUp.rank) (hundo : ¬Undoes (.roundUp digits) v m₀) :
    Conforms s m₀ (.decimal (roundTo digits true x)) := by
  obtain ⟨hx, hs⟩ := hwell _ hread
  have hfinite := (isNearest_roundTo hd hs hnear true).finite
  refine conforms_of_rounded (.inl rfl) hread hrank hundo h₀ ?_ ?_ ?_
  · rintro limit rfl rfl hle
    have hgrid : OnGrid digits limit := not_not.1 fun h => hundo (.roundedUp x h)
    rw [le_iff hx hproper₀] at hle
    rw [le_iff hfinite hproper₀]
    exact roundTo_up_le hd hx hs hnear hgrid hle
  · rintro limit rfl rfl hle
    refine le_trans' hle ?_
    rw [le_iff hx hfinite]
    exact le_roundTo_up hd hx hs hnear
  · rintro digits' rfl
    exact absurd hrank (lt_irrefl _)

/-- After rounding down: a number is not more than before, and not below a limit of as many
decimals. -/
theorem conforms_after_roundDown (hread : ReadsAs v x) (hnear : hasDecimals digits x = false)
    (hwell : MendsWell (.roundDown digits) v) (hd : digits ≤ 15)
    (hrank : m₀.code.rank < ModifierCode.roundDown.rank)
    (hundo : ¬Undoes (.roundDown digits) v m₀) :
    Conforms s m₀ (.decimal (roundTo digits false x)) := by
  obtain ⟨hx, hs⟩ := hwell _ hread
  have hfinite := (isNearest_roundTo hd hs hnear false).finite
  refine conforms_of_rounded (.inr rfl) hread hrank hundo h₀ ?_ ?_ ?_
  · rintro limit rfl rfl hle
    refine le_trans' ?_ hle
    rw [le_iff hfinite hx]
    exact roundTo_down_le hd hx hs hnear
  · rintro limit rfl rfl hle
    have hgrid : OnGrid digits limit := not_not.1 fun h => hundo (.roundedDown x h)
    rw [le_iff hproper₀ hx] at hle
    rw [le_iff hproper₀ hfinite]
    exact le_roundTo_down hd hx hs hnear hgrid hle
  · rintro digits' rfl
    have hle : digits ≤ digits' := not_lt.1 fun h => hundo (.finer v h)
    exact hasDecimals_roundTo hd hs hnear false hle hproper₀

/-- After a range: what is written is in every limit that the range meets. -/
theorem conforms_after_between (hx : CountsAs v x)
    (hout : ¬(lowBound low high ≤ x ∧ x ≤ highBound low high))
    (hrange : InRange (lowBound low high) (highBound low high))
    (hrank : m₀.code.rank < ModifierCode.between.rank)
    (hundo : ¬Undoes (.between low high) v m₀) : Conforms s m₀
      (numberLike v (clamp (lowBound low high) (highBound low high) x)) := by
  obtain ⟨z, hz⟩ := exists_countsAs (isNumber_numberLike v
    (clamp (lowBound low high) (highBound low high) x))
  have htoward (hnan : isNaN x = false) : isNaN z = false ∧
      (exact x ≤ exact z ∧ exact z ≤ exact (lowBound low high) ∨
        exact (highBound low high) ≤ exact z ∧ exact z ≤ exact x) := by
    rcases clamp_cases hrange hnan hout with ⟨hwritten, hlt⟩ | ⟨hwritten, hlt⟩
    · obtain ⟨y, hy, hynan, hup, -⟩ := exists_countsAs_toward hx hrange.low_number
      rw [hwritten] at hz
      cases hz.unique hy
      exact ⟨hynan, .inl (hup hlt.le)⟩
    · obtain ⟨y, hy, hynan, -, hdown⟩ := exists_countsAs_toward hx hrange.high_number
      rw [hwritten] at hz
      cases hz.unique hy
      exact ⟨hynan, .inr (hdown hlt.le)⟩
  refine conforms_of_number hx hz h₀ ?_ ?_ ?_
  · rintro limit rfl hle
    have hlimit := isNaN_of_isFinite hproper₀
    have hlow : exact (lowBound low high) ≤ exact limit := not_lt.1 fun h => hundo (.above v h)
    have hnan := (isNaN_of_le hle).1
    obtain ⟨hznan, hz⟩ := htoward hnan
    rw [le_iff_exact hnan hlimit] at hle
    rw [le_iff_exact hznan hlimit]
    rcases hz with ⟨-, hz⟩ | ⟨-, hz⟩
    · exact hz.trans hlow
    · exact hz.trans hle
  · rintro limit rfl hle
    have hlimit := isNaN_of_isFinite hproper₀
    have hhigh : exact limit ≤ exact (highBound low high) := not_lt.1 fun h => hundo (.below v h)
    have hnan := (isNaN_of_le hle).2
    obtain ⟨hznan, hz⟩ := htoward hnan
    rw [le_iff_exact hlimit hnan] at hle
    rw [le_iff_exact hlimit hznan]
    rcases hz with ⟨hz, -⟩ | ⟨hz, -⟩
    · exact hle.trans hz
    · exact hhigh.trans hz
  · intro hcode
    have hround {digits : Nat} (hm : m₀.Rounds digits) : Conforms s m₀
        (numberLike v (clamp (lowBound low high) (highBound low high) x)) := by
      refine conforms_numberLike hm hx ?_
      exact Bool.eq_true_of_not_eq_false fun h => hundo (.fraction hm hx h)
    cases m₀ with
    | oneOf | inTable => exact absurd (.bound v (by simp [code])) hundo
    | roundUp digits => exact hround (.inl rfl)
    | roundDown digits => exact hround (.inr rfl)
    | between => exact absurd hrank (lt_irrefl _)
    | upper | lower | ignoreCase | max | min | email | required => simp [code] at hcode

end

/-- **A modifier applied before still passes**, where it is spared. -/
theorem conforms_of_kept (h : Mends m v w) (hproper : m.Proper) (hproper₀ : m₀.Proper)
    (hrank : m₀.code.rank < m.code.rank) (hspares : Spares m v m₀) (h₀ : Conforms s m₀ v) :
    Conforms s m₀ w := by
  obtain ⟨hwell, hundo⟩ := hspares
  cases h with
  | upper => exact absurd hrank (Nat.not_lt_zero _)
  | lower =>
    have hupper : m₀ = .upper := by
      cases m₀ <;> simp [code, ModifierCode.rank] at hrank ⊢
    subst hupper
    exact absurd (.lower _) hundo
  | cutText =>
    rcases before_max hrank with rfl | rfl | rfl
    · cases h₀ with
      | upper ht => exact .upper (Text.upper_take ht _)
    · cases h₀ with
      | lower ht => exact .lower (Text.lower_take ht _)
    · exact .ignoreCase _
  | cutList =>
    rcases before_max hrank with rfl | rfl | rfl
    · cases h₀
    · cases h₀
    · exact .ignoreCase _
  | max hx =>
    rcases before_max hrank with rfl | rfl | rfl
    · cases hx <;> cases h₀
    · cases hx <;> cases h₀
    · exact .ignoreCase _
  | min hx hlt => exact conforms_after_min hproper₀ h₀ hx hlt hproper hrank hundo
  | roundUp hread hnear =>
    have hscaled := hwell (.inr ⟨hrank, List.mem_cons_self⟩)
    exact conforms_after_roundUp hproper₀ h₀ hread hnear hscaled hproper hrank hundo
  | roundDown hread hnear =>
    have hscaled := hwell (.inr ⟨hrank, List.mem_cons_of_mem _ List.mem_cons_self⟩)
    exact conforms_after_roundDown hproper₀ h₀ hread hnear hscaled hproper hrank hundo
  | between hdate hx hout =>
    exact conforms_after_between hproper₀ h₀ hx hout (hproper hdate) hrank hundo

end Modifier

end Rulebook
