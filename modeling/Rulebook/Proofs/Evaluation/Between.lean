import Rulebook.Proofs.Evaluation.Error
import Rulebook.Proofs.Evaluation.Mended
import Rulebook.Proofs.Value.Order

/-!
# The bounds of ranges

A bound of `b` is a number or a date, and the parser wants the lower one not to come after the upper
one in the loose order of values.  Numbers and dates it has them compare as such.  A number and a
date are compared by their texts, so such bounds pass where their texts are in order, and then one
bound decides alone:

    b(number, number)    what measures from the one to the other
    b(date, date)        what is a date from the one to the other
    b(number, date)      whatever measures the number or more: the date does not bound
    b(date, number)      nothing but null

In the first two the bounds are in order and the lower bound itself is admitted
(`admits_of_compile`).

Where the lower bound is a number, a forced range holds numbers to its bounds as decimals.  The
program stops where these are not in order or one of them is NaN; those of a compiled range are in
order (`clamps_of_compile`).
-/

namespace Rulebook

open Decimal Grammar

/-! ## What is admitted -/

namespace Modifier

variable {s : CheckSetting} {low high v : Value} {p q : ℚ} {x y : Float} {d e : Date}
  {admits : Value → Prop}

/-- The values besides null that a range admits, by the kinds of its bounds. -/
inductive Admits (low high : Value) : (Value → Prop) → Prop
  /-- The bounds are in order as the decimals that stand for them, and two integers also as such. -/
  | numbers {p q : ℚ} {x y : Float} : NumberBound low p x → NumberBound high q y →
      exact x ≤ exact y → (low.kind = .integer → high.kind = .integer → p ≤ q) →
      Admits low high fun v => ∃ z, measure v = .ok z ∧ x ≤ z ∧ z ≤ y
  | dates {d e : Date} : low = .date d → high = .date e → d.order e ≠ .gt →
      Admits low high fun v => ∃ c, v.asDate? = some c ∧ c.order d ≠ .lt ∧ c.order e ≠ .gt
  /-- The date does not bound. -/
  | numberDate {p : ℚ} {x : Float} {e : Date} : NumberBound low p x → high = .date e →
      Value.compareText false low.toText high.toText ≠ .gt →
      Admits low high fun v => ∃ z, measure v = .ok z ∧ x ≤ z
  /-- No date is up to a number. -/
  | dateNumber {d : Date} {q : ℚ} {y : Float} : low = .date d → NumberBound high q y →
      Value.compareText false low.toText high.toText ≠ .gt → Admits low high fun _ => False

theorem exists_admits (hlow : low.IsBound) (hhigh : high.IsBound)
    (h : Value.compareLoose false low high ≠ .gt) : ∃ admits, Admits low high admits := by
  obtain ⟨p, x, hx⟩ | ⟨d, rfl⟩ := hlow.cases <;> obtain ⟨q, y, hy⟩ | ⟨e, rfl⟩ := hhigh.cases
  · have hintegers : low.kind = .integer → high.kind = .integer → p ≤ q := fun hl hh => by
      rwa [(Value.compareLoose_numbers false hx.number hy.number).1 ⟨hl, hh⟩,
        compare_le_iff_le] at h
    exact ⟨_, .numbers hx hy (exact_le_of_compareLoose hx hy h) hintegers⟩
  · rw [hx.compareLoose_date] at h
    exact ⟨_, .numberDate hx rfl h⟩
  · rw [hy.date_compareLoose] at h
    exact ⟨_, .dateNumber rfl hy h⟩
  · exact ⟨_, .dates rfl rfl h⟩

/-- Bounds of one kind admit the lower one. -/
theorem Admits.admits_low (h : Admits low high admits) (hkinds : low.isNumber = high.isNumber) :
    admits low := by
  cases h with
  | numbers hx hy hle =>
    exact ⟨_, hx.measure, (le_iff_exact hx.isNaN hx.isNaN).2 le_rfl,
      (le_iff_exact hx.isNaN hy.isNaN).2 hle⟩
  | @dates d e hlow hhigh h =>
    subst hlow
    have hself : d.order d = .eq := Std.ReflCmp.compare_self
    refine ⟨d, rfl, ?_, h⟩
    rw [hself]
    nofun
  | numberDate hx hhigh =>
    rw [hx.isNumber, hhigh] at hkinds
    cases hkinds
  | dateNumber hlow hy =>
    rw [hy.isNumber, hlow] at hkinds
    cases hkinds

theorem conforms_dates_iff (hdate : isDateRange low = true) (hnull : v.isNull = false) :
    Conforms s (.between low high) v ↔ ∃ c, v.asDate? = some c ∧ dateWithin low high c = true := by
  constructor
  · intro h
    cases h with
    | null => cases hnull
    | dates _ hc hwithin => exact ⟨_, hc, hwithin⟩
    | between hdate' => rw [hdate] at hdate'; cases hdate'
  · rintro ⟨c, hc, hwithin⟩
    exact .dates hdate hc hwithin

theorem conforms_numbers_iff (hx : NumberBound low p x) (hnull : v.isNull = false) :
    Conforms s (.between low high) v ↔ ∃ z, measure v = .ok z ∧ x ≤ z ∧ z ≤ highBound low high := by
  have hdate : isDateRange low = false := by
    rw [isDateRange, hx.isNumber]
    rfl
  have hlow : lowBound low high = x := by
    rw [lowBound, numericBounds, hx.decimal]
    rfl
  rw [← hlow]
  constructor
  · intro h
    cases h with
    | null => cases hnull
    | dates hdate' => rw [hdate] at hdate'; cases hdate'
    | between _ hmeasure hwithin => exact ⟨_, hmeasure, hwithin⟩
  · rintro ⟨z, hmeasure, hwithin⟩
    exact .between hdate hmeasure hwithin

theorem dateWithin_iff {c : Date} : dateWithin (.date d) (.date e) c = true ↔
    c.order d ≠ .lt ∧ c.order e ≠ .gt := by
  show (c.order d != .lt && c.order e != .gt) = true ↔ _
  rw [Bool.and_eq_true, bne_iff_ne, bne_iff_ne]

/-- The values that are admitted are those that pass. -/
theorem Admits.check_eq_pass_iff (h : Admits low high admits) (hnull : v.isNull = false) :
    (Modifier.between low high).check s v = .ok .pass ↔ admits v := by
  rw [Modifier.check_eq_pass_iff]
  cases h with
  | @numbers _ _ _ y hx hy =>
    have hhigh : highBound low high = y := by
      rw [highBound, numericBounds, hy.decimal]
      rfl
    rw [conforms_numbers_iff hx hnull, hhigh]
  | dates hlow hhigh =>
    subst hlow hhigh
    rw [conforms_dates_iff rfl hnull]
    exact exists_congr fun c => and_congr_right fun _ => dateWithin_iff
  | numberDate hx hhigh =>
    subst hhigh
    rw [conforms_numbers_iff hx hnull]
    refine exists_congr fun z => and_congr_right fun _ => and_iff_left_of_imp fun hlow => ?_
    -- infinity stands for an upper bound that is a date
    exact le_infinite (isNaN_of_le hlow).2
  | dateNumber hlow hy =>
    subst hlow
    rw [conforms_dates_iff rfl hnull]
    refine iff_false_intro ?_
    rintro ⟨c, -, hwithin⟩
    simp [dateWithin, hy.asDate?] at hwithin

/-- **The bounds of a compiled range are in order, and what passes is what both of them admit**,
where they are two numbers or two dates; the lower bound itself passes then.  A range of a number
and a date passes whatever measures the number or more, and one of a date and a number nothing but
null. -/
theorem admits_of_compile (config : Config) (text : String) (r : Rule) (b : Bracket)
    (low high : Value) (hr : Rule.compile config text = .ok r) (hb : b ∈ r.leaves)
    (hm : .between low high ∈ b.modifiers) : ∃ admits, Admits low high admits ∧
      (∀ s v, v.isNull = false →
        ((Modifier.between low high).check s v = .ok .pass ↔ admits v)) ∧
      (low.isNumber = high.isNumber → admits low) := by
  obtain ⟨code, args, haccepts⟩ := (built_of_compile hr hb).accepted _ hm
  cases haccepts with
  | between hlow hhigh h =>
    obtain ⟨admits, hadmits⟩ := exists_admits (Value.isBound_of_boundForm hlow)
      (Value.isBound_of_boundForm hhigh) h
    exact ⟨admits, hadmits, fun s v hnull => hadmits.check_eq_pass_iff hnull, hadmits.admits_low⟩

/-- The bounds of the first modifier of a text, if it is a range. -/
def firstRange? (text : String) : Option (Value × Value) :=
  (Rule.firstBracket? {} text).bind fun b => b.modifiers.head?.bind fun
    | .between low high => some (low, high)
    | _ => none

theorem exists_of_firstRange? {text : String} (h : firstRange? text = some (low, high)) :
    ∃ r b, Rule.compile {} text = .ok r ∧ b ∈ r.leaves ∧ .between low high ∈ b.modifiers := by
  obtain ⟨b, hb, h⟩ := Option.bind_eq_some_iff.1 h
  obtain ⟨m, hm, h⟩ := Option.bind_eq_some_iff.1 h
  obtain ⟨r, hr, hleaf⟩ := Rule.exists_of_firstBracket? hb
  split at h
  · cases h
    exact ⟨r, b, hr, hleaf, List.mem_of_mem_head? hm⟩
  · cases h

/-- Bounds 5 and 10: the 5 itself passes. -/
theorem admits_of_compile_five : ∃ r b low high, Rule.compile {} "[|b(5,10)]" = .ok r ∧
    b ∈ r.leaves ∧ .between low high ∈ b.modifiers ∧ low.number? = some 5 ∧
    high.number? = some 10 ∧ (Modifier.between low high).check ⟨false, false, none⟩ low =
      .ok .pass := by
  have hrun : (firstRange? "[|b(5,10)]").map (fun p => (p.1.number?, p.2.number?)) =
      some (some 5, some 10) := by decide +kernel
  obtain ⟨⟨low, high⟩, hrange, hnumbers⟩ := Option.map_eq_some_iff.1 hrun
  obtain ⟨hlow, hhigh⟩ := Prod.mk.inj hnumbers
  obtain ⟨r, b, hr, hb, hm⟩ := exists_of_firstRange? hrange
  obtain ⟨admits, -, hpass, hself⟩ := admits_of_compile {} _ r b low high hr hb hm
  have hnumber {v : Value} {p : ℚ} (h : v.number? = some p) :
      v.isNumber = true ∧ v.isNull = false := by
    cases v <;> first | exact ⟨rfl, rfl⟩ | cases h
  refine ⟨r, b, low, high, hr, hb, hm, hlow, hhigh, ?_⟩
  rw [hpass _ _ (hnumber hlow).2]
  exact hself ((hnumber hlow).1.trans (hnumber hhigh).1.symm)

/-- A range from 1 to a date passes 999999999, and one from a date to 5 passes nothing. -/
theorem not_bounded_of_compile :
    (∃ r b low high, Rule.compile {} "[|b(1,2024-01-31)]" = .ok r ∧ b ∈ r.leaves ∧
      .between low high ∈ b.modifiers ∧ low.kind = .integer ∧ high.kind = .date ∧
      (Modifier.between low high).check ⟨false, false, none⟩ (.integer 999999999) = .ok .pass) ∧
    ∃ r b low high, Rule.compile {} "[|b(2024-01-31,5)]" = .ok r ∧ b ∈ r.leaves ∧
      .between low high ∈ b.modifiers ∧ low.kind = .date ∧ high.kind = .integer ∧
      ∀ s v, v.isNull = false → (Modifier.between low high).check s v ≠ .ok .pass := by
  constructor
  · have hrun : (firstRange? "[|b(1,2024-01-31)]").map (fun p => (p.1.kind, p.2.kind,
        (lowBound p.1 p.2 ≤ ofInt 999999999 && ofInt 999999999 ≤ highBound p.1 p.2 : Bool))) =
        some (.integer, .date, true) := by decide +kernel
    obtain ⟨⟨low, high⟩, hrange, hrun⟩ := Option.map_eq_some_iff.1 hrun
    simp only [Prod.mk.injEq, Bool.and_eq_true, decide_eq_true_eq] at hrun
    obtain ⟨hlow, hhigh, hwithin⟩ := hrun
    obtain ⟨r, b, hr, hb, hm⟩ := exists_of_firstRange? hrange
    refine ⟨r, b, low, high, hr, hb, hm, hlow, hhigh, check_eq_pass_iff.2 ?_⟩
    cases low <;> cases hlow
    exact .between rfl rfl hwithin
  · have hrun : (firstRange? "[|b(2024-01-31,5)]").map (fun p => (p.1.kind, p.2.kind)) =
        some (.date, .integer) := by decide +kernel
    obtain ⟨⟨low, high⟩, hrange, hkinds⟩ := Option.map_eq_some_iff.1 hrun
    obtain ⟨hlow, hhigh⟩ := Prod.mk.inj hkinds
    obtain ⟨r, b, hr, hb, hm⟩ := exists_of_firstRange? hrange
    refine ⟨r, b, low, high, hr, hb, hm, hlow, hhigh, fun s v hnull h => ?_⟩
    cases low <;> cases hlow
    cases high <;> cases hhigh
    rw [check_eq_pass_iff, conforms_dates_iff rfl hnull] at h
    obtain ⟨c, -, hwithin⟩ := h
    cases hwithin

/-! ## Holding numbers to a range -/

theorem InRange.le {lo hi : Float} (h : InRange lo hi) : lo ≤ hi :=
  (le_iff_exact h.low_number h.high_number).2 h.ordered

theorem clamp?_of_le {lo hi : Float} (h : lo ≤ hi) (x : Float) :
    clamp? lo hi x = some (clamp lo hi x) := if_pos h

/-- A compiled bracket stops at no value. -/
theorem errsIn_of_compile {config : Config} {text : String} {r : Rule} {b : Bracket}
    (hr : Rule.compile config text = .ok r) (hb : b ∈ r.leaves) : b.ErrsIn (· ≠ .unordered) := by
  intro m hm s v e herrs
  cases herrs with
  | unordered _ hdate hout =>
    have hproper := proper_of_compile hr hb hm hdate
    exact absurd hproper.le hout
  | wrongKind | noLookup | lookup => nofun

/-- **The decimal bounds of a compiled range of numbers are in order and none of them is NaN**, so
any number can be held to them: neither the range nor an evaluation of the rule stops. -/
theorem clamps_of_compile (config : Config) (text : String) (r : Rule) (b : Bracket)
    (low high : Value) (hr : Rule.compile config text = .ok r) (hb : b ∈ r.leaves)
    (hm : .between low high ∈ b.modifiers) (hdate : isDateRange low = false) :
    isNaN (lowBound low high) = false ∧ isNaN (highBound low high) = false ∧
      lowBound low high ≤ highBound low high ∧
      (∀ x, clamp? (lowBound low high) (highBound low high) x =
        some (clamp (lowBound low high) (highBound low high) x)) ∧
      (∀ s v, (Modifier.between low high).check s v ≠ .error .unordered) ∧
      ∀ ev v, r.evaluate ev v ≠ .error .unordered := by
  have hproper : InRange (lowBound low high) (highBound low high) :=
    proper_of_compile hr hb hm hdate
  refine ⟨hproper.low_number, hproper.high_number, hproper.le, clamp?_of_le hproper.le, ?_, ?_⟩
  · intro s v hstop
    exact errsIn_of_compile hr hb _ hm s v _ (errs_of_check hstop) rfl
  · intro ev v hstop
    exact Rule.evaluate_errsIn (fun b hb => errsIn_of_compile hr hb) (.inl nofun) hstop rfl

/-- An upper bound that is a date counts as infinity, and -3 is held to the lower one. -/
theorem clamps_of_compile_date : ∃ r b low high w,
    Rule.compile {} "[|b(-0.5,2024-01-31)-f]" = .ok r ∧ b ∈ r.leaves ∧
    .between low high ∈ b.modifiers ∧ isDateRange low = false ∧ high.kind = .date ∧
    lowBound low high ≤ highBound low high ∧ w.number? = some (-1 / 2) ∧
    (Modifier.between low high).check ⟨true, false, none⟩ (.integer (-3)) = .ok (.mended w) := by
  have hrun : (firstRange? "[|b(-0.5,2024-01-31)-f]").map (fun p =>
      (isDateRange p.1, p.2.kind, ((Modifier.between p.1 p.2).mended? ⟨true, false, none⟩
        (.integer (-3))).bind Value.number?)) = some (false, .date, some (-1 / 2)) := by
    decide +kernel
  obtain ⟨⟨low, high⟩, hrange, hrun⟩ := Option.map_eq_some_iff.1 hrun
  simp only [Prod.mk.injEq] at hrun
  obtain ⟨hdate, hkind, hmended⟩ := hrun
  obtain ⟨w, hw, hnumber⟩ := Option.bind_eq_some_iff.1 hmended
  obtain ⟨r, b, hr, hb, hm⟩ := exists_of_firstRange? hrange
  obtain ⟨-, -, hle, -, -, -⟩ := clamps_of_compile {} _ r b low high hr hb hm hdate
  exact ⟨r, b, low, high, w, hr, hb, hm, hdate, hkind, hle, hnumber, mended?_eq_some_iff.1 hw⟩

/-- Bounds that are not in order stop the range. -/
example : (Modifier.between (.integer 10) (.integer 5)).check ⟨true, false, none⟩ (.integer 7) =
    .error .unordered := rfl

end Modifier

end Rulebook
