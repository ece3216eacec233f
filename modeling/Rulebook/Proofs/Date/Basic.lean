import Mathlib.Order.Monotone.Basic
import Rulebook.Date.Basic

/-!
# Days that exist, and how many come before them

A month has 28 to 31 days, and `ofYmd?` is the day with the three numbers given
(`ofYmd?_eq_some_iff`).  The number of a day is the days of the years before its year, those of the
months before its month, and the day itself (`number_eq`); a year and a month are as long as what
they add to that:

    daysBeforeYear (y + 1)    = daysBeforeYear y + yearLength y
    daysBeforeMonth y (m + 1) = daysBeforeMonth y m + monthLength y m
-/

namespace Rulebook.Date

variable {year later : Int} {month day : Nat} {d e : Date}

/-! ## Days that exist -/

theorem month_le (h : Exists year month day) : 1 ≤ month ∧ month ≤ 12 := by
  obtain ⟨-, -, hday, hle⟩ := h
  unfold monthLength at hle
  split at hle <;> omega

theorem monthLength_le (year : Int) (month : Nat) : monthLength year month ≤ 31 := by
  unfold monthLength
  repeat' split
  all_goals omega

theorem le_monthLength (year : Int) (month : Nat) (h1 : 1 ≤ month) (h12 : month ≤ 12) :
    28 ≤ monthLength year month := by
  unfold monthLength
  repeat' split
  any_goals decide
  -- what is left is no month
  grind

theorem day_le (h : Exists year month day) : day ≤ 31 :=
  Nat.le_trans h.2.2.2 (monthLength_le year month)

theorem ofYmd?_eq_some_iff :
    ofYmd? year month day = some e ↔ e.year = year ∧ e.month = month ∧ e.day = day := by
  unfold ofYmd?
  constructor
  · intro h
    split at h
    · cases h
      exact ⟨rfl, rfl, rfl⟩
    · cases h
  · rintro ⟨rfl, rfl, rfl⟩
    rw [dif_pos e.valid]

theorem ofYmd?_of_exists (h : Exists year month day) :
    ofYmd? year month day = some ⟨year, month, day, h⟩ :=
  dif_pos h

/-! ## Years and months in days -/

theorem isLeapYear_iff :
    isLeapYear year = true ↔ year % 4 = 0 ∧ (year % 100 ≠ 0 ∨ year % 400 = 0) := by
  simp [isLeapYear]

/-- Two leap years never follow each other, and no other month is longer in one year. -/
theorem monthLength_succ_lt_iff (year : Int) (month : Nat) :
    monthLength (year + 1) month < monthLength year month ↔
      month = 2 ∧ monthLength year month = 29 := by
  have hleap : isLeapYear year = true → isLeapYear (year + 1) = false := by
    intro h
    rw [← Bool.not_eq_true, isLeapYear_iff]
    rw [isLeapYear_iff] at h
    omega
  by_cases hfebruary : month = 2
  · subst hfebruary
    simp only [monthLength]
    by_cases h : isLeapYear year = true
    · rw [if_pos h, hleap h]
      decide
    · rw [if_neg h]
      split <;> decide
  · have hsame : monthLength (year + 1) month = monthLength year month := by
      unfold monthLength
      split <;> first | rfl | contradiction
    omega

def yearLength (year : Int) : Nat := if isLeapYear year then 366 else 365

/-- Days of the years from year 1 up to `year`, which is not among them. -/
def daysBeforeYear (year : Int) : Int :=
  365 * (year - 1) + (year - 1) / 4 - (year - 1) / 100 + (year - 1) / 400

theorem number_eq (d : Date) :
    d.number = daysBeforeYear d.year + daysBeforeMonth d.year d.month + d.day := rfl

theorem number_mk (h : Exists year month day) : (Date.mk year month day h).number =
    daysBeforeYear year + daysBeforeMonth year month + day := rfl

theorem daysBeforeYear_succ (year : Int) :
    daysBeforeYear (year + 1) = daysBeforeYear year + yearLength year := by
  unfold daysBeforeYear yearLength
  split
  · next h =>
    rw [isLeapYear_iff] at h
    omega
  · next h =>
    rw [isLeapYear_iff] at h
    omega

theorem daysBeforeYear_of_lt (h : year < later) :
    daysBeforeYear year + yearLength year ≤ daysBeforeYear later := by
  have hmono : daysBeforeYear (year + 1) ≤ daysBeforeYear later := by
    unfold daysBeforeYear
    omega
  rwa [daysBeforeYear_succ] at hmono

theorem daysBeforeMonth_one (year : Int) : daysBeforeMonth year 1 = 0 := rfl

theorem daysBeforeMonth_succ (year : Int) (month : Nat) :
    daysBeforeMonth year (month + 1) = daysBeforeMonth year month + monthLength year month := by
  cases month <;> rfl

theorem daysBeforeMonth_mono (year : Int) : Monotone (daysBeforeMonth year) :=
  monotone_nat_of_le_succ fun month => by
    rw [daysBeforeMonth_succ]
    exact Nat.le_add_right _ _

theorem daysBeforeMonth_of_lt (year : Int) {next : Nat} (h : month < next) :
    daysBeforeMonth year month + monthLength year month ≤ daysBeforeMonth year next := by
  rw [← daysBeforeMonth_succ]
  exact daysBeforeMonth_mono year h

theorem monthLength_twelve (year : Int) : monthLength year 12 = 31 := rfl

theorem daysBeforeMonth_end (year : Int) : daysBeforeMonth year 12 + 31 = yearLength year := by
  simp only [daysBeforeMonth, monthLength, yearLength]
  split <;> rfl

/-- The day is within its year. -/
theorem daysBeforeMonth_add_day_le (d : Date) :
    daysBeforeMonth d.year d.month + d.day ≤ yearLength d.year := by
  have hday := d.valid.2.2.2
  have hmonth := month_le d.valid
  have hyear := daysBeforeMonth_of_lt d.year (show d.month < 13 by omega)
  rw [daysBeforeMonth_succ, monthLength_twelve, daysBeforeMonth_end] at hyear
  omega

end Rulebook.Date
