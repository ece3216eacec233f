import Rulebook.Proofs.Date.Period
import Rulebook.Proofs.Date.WorkingDay

/-!
# First and last working days of a period

Of any three days of a month one after another, one is a working day.  So the search for a working
day from the first or the last day of a period stays in the month where it starts, and what it finds
is the first or the last working day of the whole period:

    IsLeast    (P ∩ workingDays) (workingDayFrom s)      when s is the first day of P
    IsGreatest (P ∩ workingDays) (workingDayUpTo s)      when s is the last day of P

Months, quarters and fiscal years are made of whole months, so that this holds of all of them.
-/

namespace Rulebook.Date

variable {year : Int} {month m : Nat} {d s : Date} {P : Set Date}

/-! ## Three days of a month -/

theorem exists_workingDay (s : Date) {n : Nat} (hfirst : 1 ≤ n)
    (hlast : n + 2 ≤ monthLength s.year s.month) :
    ∃ t ∈ monthOf s, t ∈ workingDays ∧ n ≤ t.day ∧ t.day ≤ n + 2 := by
  obtain ⟨hleast, hgreatest, -, -⟩ := s.valid
  have hexists : ∀ k ≤ 2, Exists s.year s.month (n + k) := fun k hk =>
    ⟨hleast, hgreatest, by omega, by omega⟩
  let start : Int := daysBeforeYear s.year + daysBeforeMonth s.year s.month + n
  obtain ⟨k, hk, hwork⟩ : ∃ k : Nat, k ≤ 2 ∧ 1 ≤ (start + k) % 7 ∧ (start + k) % 7 ≤ 5 := by
    by_cases hsaturday : start % 7 = 6
    · exact ⟨2, by omega, by omega, by omega⟩
    · by_cases hsunday : start % 7 = 0
      · exact ⟨1, by omega, by omega, by omega⟩
      · exact ⟨0, by omega, by omega, by omega⟩
  refine ⟨⟨s.year, s.month, n + k, hexists k hk⟩, ⟨rfl, rfl⟩, ?_, Nat.le_add_right n k,
    Nat.add_le_add_left hk n⟩
  have hnumber : daysBeforeYear s.year + daysBeforeMonth s.year s.month + (n + k : Nat) =
      start + k := by
    simp only [start]
    omega
  rw [mem_workingDays_iff, number_mk, hnumber]
  exact hwork

theorem isLeast_inter_workingDays (hs : IsLeast P s) (hmonth : monthOf s ⊆ P) (hday : s.day = 1) :
    IsLeast (P ∩ workingDays) (workingDayFrom s) := by
  obtain ⟨h1, h12⟩ := month_le s.valid
  have hlength := le_monthLength s.year s.month h1 h12
  obtain ⟨t, ⟨hyear, hmonth'⟩, ht, htday, -⟩ := exists_workingDay s (Nat.le_refl 1) (by omega)
  have hst : s ≤ t := by
    rw [le_iff]
    omega
  obtain ⟨⟨hsw, hwork⟩, hfirst⟩ := isLeast_workingDayFrom hst ht
  refine ⟨⟨hmonth ?_, hwork⟩, fun x ⟨hxP, hx⟩ => hfirst ⟨hs.2 hxP, hx⟩⟩
  exact periods_month.between hsw (hfirst ⟨hst, ht⟩) ⟨hyear, hmonth'⟩

theorem isGreatest_inter_workingDays (hs : IsGreatest P s) (hmonth : monthOf s ⊆ P)
    (hday : s.day = monthLength s.year s.month) :
    IsGreatest (P ∩ workingDays) (workingDayUpTo s) := by
  obtain ⟨h1, h12⟩ := month_le s.valid
  have hlength := le_monthLength s.year s.month h1 h12
  obtain ⟨n, hn⟩ : ∃ n, n + 2 = monthLength s.year s.month := ⟨_, Nat.sub_add_cancel (by omega)⟩
  obtain ⟨t, hmem, ht, -, htday⟩ := exists_workingDay s (show 1 ≤ n by omega) (Nat.le_of_eq hn)
  have hts : t ≤ s := by
    obtain ⟨hyear, hmonth'⟩ := hmem
    rw [le_iff]
    omega
  obtain ⟨⟨hws, hwork⟩, hlast⟩ := isGreatest_workingDayUpTo hts ht
  refine ⟨⟨hmonth ?_, hwork⟩, fun x ⟨hxP, hx⟩ => hlast ⟨hs.2 hxP, hx⟩⟩
  have hself : s ∈ monthOf t := by
    rw [periods_month.same hmem]
    exact periods_month.self s
  rw [← periods_month.same hmem]
  exact periods_month.between (hlast ⟨hts, ht⟩) hws hself

/-! ## Periods are made of whole months -/

theorem monthOf_subset_quarterOf (d : Date) : monthOf d ⊆ quarterOf d := by
  rintro e ⟨hyear, hmonth⟩
  exact ⟨hyear, by rw [hmonth]⟩

/-- A month has no end of a fiscal year but its last day. -/
theorem monthOf_subset_fiscalYearOf (m : Nat) (d : Date) : monthOf d ⊆ fiscalYearOf m d := by
  have hnot : ∀ {a b x : Date}, b ∈ monthOf a → x ∈ fiscalYearEnds m → a ≤ x → b ≤ x := by
    intro a b x hb hx hax
    by_contra hlt
    have hxa : x ∈ monthOf a := periods_month.between hax (not_le.1 hlt).le hb
    rw [← periods_month.same hxa] at hb
    exact hlt (hx.2.2 hb)
  intro e he x hx
  have hd : d ∈ monthOf e := by
    rw [periods_month.same he]
    exact periods_month.self d
  exact ⟨hnot he hx, hnot hd hx⟩

theorem isLeast_firstOfMonth (d : Date) : IsLeast (monthOf d) (firstOfMonth d.year d.month) := by
  rw [firstOfMonth_eq (exists_firstOfMonth d)]
  refine ⟨⟨rfl, rfl⟩, ?_⟩
  rintro x ⟨hyear, hmonth⟩
  have hx := x.valid.2.2.1
  rw [le_iff]
  simp only
  omega

theorem isLeast_firstOfQuarter (d : Date) :
    IsLeast (quarterOf d) (firstOfMonth d.year (quarterMonth d)) := by
  have hmonth := month_le d.valid
  have hquarter := quarterMonth_eq d
  rw [firstOfMonth_eq (exists_firstOfQuarter d)]
  refine ⟨⟨rfl, ?_⟩, ?_⟩
  · show (quarterMonth d - 1) / 3 = (d.month - 1) / 3
    omega
  · rintro x ⟨hyear, hmonth'⟩
    have hx := x.valid.2.2.1
    have hxmonth := month_le x.valid
    rw [le_iff]
    simp only
    omega

theorem day_firstOfMonth (h : Exists year month 1) : (firstOfMonth year month).day = 1 := by
  rw [firstOfMonth_eq h]

theorem day_lastOfMonth (h : Followed year month) : (lastOfMonth year month).day =
    monthLength (lastOfMonth year month).year (lastOfMonth year month).month := by
  rw [lastOfMonth_eq h]

theorem Periods.first {P : Date → Set Date} (hP : Periods P) (hwhole : ∀ d, monthOf d ⊆ P d)
    (hs : IsLeast (P d) s) (hday : s.day = 1) : IsLeast (P d ∩ workingDays) (workingDayFrom s) := by
  have hmonth := hwhole s
  rw [hP.same hs.1] at hmonth
  exact isLeast_inter_workingDays hs hmonth hday

theorem Periods.last {P : Date → Set Date} (hP : Periods P) (hwhole : ∀ d, monthOf d ⊆ P d)
    (hs : IsGreatest (P d) s) (hday : s.day = monthLength s.year s.month) :
    IsGreatest (P d ∩ workingDays) (workingDayUpTo s) := by
  have hmonth := hwhole s
  rw [hP.same hs.1] at hmonth
  exact isGreatest_inter_workingDays hs hmonth hday

/-- **First and last working days.**  Of the month and of the quarter both, of the fiscal year the
last one. -/
theorem first_and_last_workingDays (h1 : 1 ≤ m) (h12 : m ≤ 12) (hd : d.year < greatestYear) :
    IsLeast (monthOf d ∩ workingDays) (firstWorkingDayOfMonth d) ∧
    IsGreatest (monthOf d ∩ workingDays) (lastWorkingDayOfMonth d) ∧
    IsLeast (quarterOf d ∩ workingDays) (firstWorkingDayOfQuarter d) ∧
    IsGreatest (quarterOf d ∩ workingDays) (lastWorkingDayOfQuarter d) ∧
    IsGreatest (fiscalYearOf m d ∩ workingDays) (lastWorkingDayOfFiscalYear d m) := by
  have hmonth := followed_month hd
  have hquarter := followed_quarter hd
  have hyear := followed_fiscalYear h1 h12 hd
  have hwhole (d : Date) : monthOf d ⊆ monthOf d := subset_rfl
  refine ⟨?_, ?_, ?_, ?_, ?_⟩
  · exact periods_month.first hwhole (isLeast_firstOfMonth d)
      (day_firstOfMonth (exists_firstOfMonth d))
  · exact periods_month.last hwhole (isGreatest_endOfMonth hmonth) (day_lastOfMonth hmonth)
  · exact periods_quarter.first monthOf_subset_quarterOf (isLeast_firstOfQuarter d)
      (day_firstOfMonth (exists_firstOfQuarter d))
  · exact periods_quarter.last monthOf_subset_quarterOf (isGreatest_endOfQuarter hquarter)
      (day_lastOfMonth hquarter)
  · exact (periods_fiscalYear m).last (monthOf_subset_fiscalYearOf m)
      (isGreatest_endOfFiscalYear hyear) (day_lastOfMonth hyear)

/-- The working days of June 2024, which begins with a Saturday and ends with a Sunday, with the
quarter and the fiscal year that end there. -/
theorem first_and_last_workingDays_june :
    (1 ≤ 6 ∧ 6 ≤ 12 ∧ (2024 : Int) < greatestYear) ∧
    IsLeast (monthOf ⟨2024, 6, 12, by decide⟩ ∩ workingDays) ⟨2024, 6, 3, by decide⟩ ∧
    IsGreatest (monthOf ⟨2024, 6, 12, by decide⟩ ∩ workingDays) ⟨2024, 6, 28, by decide⟩ ∧
    IsLeast (quarterOf ⟨2024, 6, 12, by decide⟩ ∩ workingDays) ⟨2024, 4, 1, by decide⟩ ∧
    IsGreatest (quarterOf ⟨2024, 6, 12, by decide⟩ ∩ workingDays) ⟨2024, 6, 28, by decide⟩ ∧
    IsGreatest (fiscalYearOf 6 ⟨2024, 6, 12, by decide⟩ ∩ workingDays)
      ⟨2024, 6, 28, by decide⟩ := by
  have hjune := first_and_last_workingDays (m := 6) (d := ⟨2024, 6, 12, by decide⟩) (by decide)
    (by decide) (by decide)
  have hfirst : firstWorkingDayOfMonth ⟨2024, 6, 12, by decide⟩ = ⟨2024, 6, 3, by decide⟩ := by
    decide
  have hlast : lastWorkingDayOfMonth ⟨2024, 6, 12, by decide⟩ = ⟨2024, 6, 28, by decide⟩ := by
    decide
  have hquarter : firstWorkingDayOfQuarter ⟨2024, 6, 12, by decide⟩ = ⟨2024, 4, 1, by decide⟩ := by
    decide
  have hquarter' : lastWorkingDayOfQuarter ⟨2024, 6, 12, by decide⟩ = ⟨2024, 6, 28, by decide⟩ := by
    decide
  have hyear : lastWorkingDayOfFiscalYear ⟨2024, 6, 12, by decide⟩ 6 =
      ⟨2024, 6, 28, by decide⟩ := by
    decide
  rw [hfirst, hlast, hquarter, hquarter', hyear] at hjune
  exact ⟨by decide, hjune⟩

end Rulebook.Date
