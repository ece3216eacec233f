import Rulebook.Proofs.Date.FirstAndLast

/-!
# Where a fiscal year begins

The beginning is found from the end: twelve months back, one day on, and then the first day of that
month.  Twelve months back is the end `p` of the fiscal year before, unless that month was longer
then, so that the day is one short of `p`:

    IsLeast (Set.Ioi p) (startOfFiscalYear d m)      when p is not 29 February
    IsLeast (monthOf p) (startOfFiscalYear d m)      when p is

What holds of the first day holds of the first working day (`first_workingDay_of_fiscalYear`).
-/

namespace Rulebook.Date

variable {year : Int} {month m : Nat} {d e : Date}

/-! ## The end of the fiscal year before -/

theorem followed_before (h1 : 1 ≤ m) (h12 : m ≤ 12) (hleast : leastYear < d.year)
    (hd : d.year < greatestYear) : Followed (fiscalYear d m - 1) m := by
  have hyear := fiscalYear_cases d m
  exact ⟨by omega, h1, h12, by omega⟩

theorem isGreatest_before (h : Followed (fiscalYear d m - 1) m) :
    IsGreatest (Set.Iio d ∩ fiscalYearEnds m) (lastOfMonth (fiscalYear d m - 1) m) := by
  have hyear := fiscalYear_cases d m
  refine ⟨⟨?_, ?_⟩, ?_⟩
  · rw [Set.mem_Iio, ← not_le, lastOfMonth_eq h, le_iff]
    simp only
    omega
  · rw [lastOfMonth_eq h, mem_fiscalYearEnds_iff]
    exact ⟨rfl, rfl⟩
  · rintro x ⟨hxd, hx⟩
    rw [mem_fiscalYearEnds_iff] at hx
    rw [Set.mem_Iio, lt_iff] at hxd
    obtain ⟨rfl, hday⟩ := hx
    rw [le_lastOfMonth_iff h]
    rcases hxd with hlt | ⟨heq, hlt | ⟨hmonth, hlt⟩⟩
    · omega
    · omega
    · -- a day of the month that the last day of it comes before
      have hlast := d.valid.2.2.2
      rw [← heq, ← hmonth] at hlast
      omega

/-! ## The first day -/

/-- After the last day of a month comes the first day of one. -/
theorem day_of_next? (h : d.next? = some e) (hlast : d.day = monthLength d.year d.month) :
    e.day = 1 := by
  unfold next? at h
  rw [if_neg (by omega)] at h
  split at h
  · exact (ofYmd?_eq_some_iff.1 h).2.2
  · exact (ofYmd?_eq_some_iff.1 h).2.2

theorem isLeast_Ioi (h : d.next? = some e) : IsLeast (Set.Ioi d) e := by
  have hnumber := number_of_next? h
  refine ⟨number_lt_iff.1 (by omega), fun x hx => number_le_iff.1 ?_⟩
  have hlt := number_lt_of_lt hx
  omega

theorem addMonths?_year (h : Followed year month) :
    (lastOfMonth year month).addMonths? (-12) = ofYmd? (year - 1) month
      (min (monthLength year month) (monthLength (year - 1) month)) := by
  rw [lastOfMonth_eq h, addMonths?_eq h.one_le h.le_twelve]
  simp only
  omega

theorem startOfFiscalYear_of_some
    (h : ((endOfFiscalYear d m).addMonths? (-12)).bind next? = some e) :
    startOfFiscalYear d m = firstOfMonth e.year e.month := by
  unfold startOfFiscalYear
  simp only [h]

/-- The year before is no longer in that month, and the day after its last one begins a month. -/
theorem startOfFiscalYear_eq (hyear : Followed (fiscalYear d m) m)
    (h : Followed (fiscalYear d m - 1) m)
    (hlength : monthLength (fiscalYear d m - 1) m ≤ monthLength (fiscalYear d m) m) :
    ∃ e, (lastOfMonth (fiscalYear d m - 1) m).next? = some e ∧ e.day = 1 ∧
      startOfFiscalYear d m = e := by
  have hlt : lastOfMonth (fiscalYear d m - 1) m < lastOfMonth (fiscalYear d m) m := by
    rw [← not_le, le_lastOfMonth_iff h, lastOfMonth_eq hyear]
    simp only
    omega
  obtain ⟨e, he, -, -⟩ := exists_next?_le hlt
  have hday : e.day = 1 := day_of_next? he (day_lastOfMonth h)
  refine ⟨e, he, hday, ?_⟩
  have hback : (endOfFiscalYear d m).addMonths? (-12) =
      some (lastOfMonth (fiscalYear d m - 1) m) := by
    rw [endOfFiscalYear, addMonths?_year hyear, Nat.min_eq_right hlength,
      ofYmd?_of_exists h.exists_last, lastOfMonth_eq h]
  rw [startOfFiscalYear_of_some (by rw [hback, Option.bind_some, he]),
    firstOfMonth_eq (exists_firstOfMonth e)]
  exact ext_of_parts rfl rfl hday.symm

/-- The year before is longer in that month, and the day found is still in it. -/
theorem startOfFiscalYear_of_lt (hyear : Followed (fiscalYear d m) m)
    (h : Followed (fiscalYear d m - 1) m)
    (hlength : monthLength (fiscalYear d m) m < monthLength (fiscalYear d m - 1) m) :
    startOfFiscalYear d m = firstOfMonth (fiscalYear d m - 1) m := by
  have hfirst := le_monthLength (fiscalYear d m) m hyear.one_le hyear.le_twelve
  have hexists : ∀ n, 1 ≤ n → n ≤ monthLength (fiscalYear d m - 1) m →
      Exists (fiscalYear d m - 1) m n := fun n h1 hn =>
    ⟨h.least_le, h.exists_first.2.1, h1, hn⟩
  let back : Date := ⟨_, _, _, hexists (monthLength (fiscalYear d m) m) (by omega) hlength.le⟩
  let on : Date := ⟨_, _, _, hexists (monthLength (fiscalYear d m) m + 1) (by omega) hlength⟩
  have hback : (endOfFiscalYear d m).addMonths? (-12) = some back := by
    rw [endOfFiscalYear, addMonths?_year hyear, Nat.min_eq_left hlength.le,
      ofYmd?_of_exists back.valid]
  have hon : back.next? = some on := by
    rw [next?_eq_some_iff, number_mk, number_mk]
    omega
  rw [startOfFiscalYear_of_some (by rw [hback, Option.bind_some, hon])]

/-! ## The first working day -/

theorem isLeast_firstWorkingDay (hyear : Followed (fiscalYear d m) m)
    (h : Followed (fiscalYear d m - 1) m)
    (hlength : monthLength (fiscalYear d m - 1) m ≤ monthLength (fiscalYear d m) m) :
    IsLeast (Set.Ioi (lastOfMonth (fiscalYear d m - 1) m) ∩ workingDays)
      (firstWorkingDayOfFiscalYear d m) := by
  obtain ⟨e, he, hday, hstart⟩ := startOfFiscalYear_eq hyear h hlength
  have hfirst := isLeast_Ioi he
  have hmonth : monthOf e ⊆ Set.Ioi (lastOfMonth (fiscalYear d m - 1) m) := by
    rintro x ⟨hxyear, hxmonth⟩
    have hx := x.valid.2.2.1
    have hex : e ≤ x := by
      rw [le_iff]
      omega
    exact lt_of_lt_of_le hfirst.1 hex
  rw [firstWorkingDayOfFiscalYear, hstart]
  exact isLeast_inter_workingDays hfirst hmonth hday

theorem isLeast_firstWorkingDay_of_lt (hyear : Followed (fiscalYear d m) m)
    (h : Followed (fiscalYear d m - 1) m)
    (hlength : monthLength (fiscalYear d m) m < monthLength (fiscalYear d m - 1) m) :
    IsLeast (monthOf (lastOfMonth (fiscalYear d m - 1) m) ∩ workingDays)
      (firstWorkingDayOfFiscalYear d m) := by
  have hfirst := isLeast_firstOfMonth (lastOfMonth (fiscalYear d m - 1) m)
  rw [firstWorkingDayOfFiscalYear, startOfFiscalYear_of_lt hyear h hlength]
  rw [lastOfMonth_eq h] at hfirst ⊢
  exact isLeast_inter_workingDays hfirst (periods_month.same hfirst.1).subset
    (day_firstOfMonth h.exists_first)

/-- **The first working day of a fiscal year**, where `p` is the last day of the one before.  It is
the first working day after `p`, but not where `p` is 29 February: there it is the first working day
of that February. -/
theorem first_workingDay_of_fiscalYear (h1 : 1 ≤ m) (h12 : m ≤ 12) (hleast : leastYear < d.year)
    (hd : d.year < greatestYear) : ∃ p, IsGreatest (Set.Iio d ∩ fiscalYearEnds m) p ∧
      (IsLeast (Set.Ioi p ∩ workingDays) (firstWorkingDayOfFiscalYear d m) ↔
        ¬ (p.month = 2 ∧ p.day = 29)) ∧
      (p.month = 2 ∧ p.day = 29 →
        IsLeast (monthOf p ∩ workingDays) (firstWorkingDayOfFiscalYear d m)) := by
  have hyear := followed_fiscalYear h1 h12 hd
  have h := followed_before h1 h12 hleast hd
  have hgreatest := isGreatest_before h
  have hshort := monthLength_succ_lt_iff (fiscalYear d m - 1) m
  rw [Int.sub_add_cancel] at hshort
  have hleap : (lastOfMonth (fiscalYear d m - 1) m).month = 2 ∧
      (lastOfMonth (fiscalYear d m - 1) m).day = 29 ↔
        monthLength (fiscalYear d m) m < monthLength (fiscalYear d m - 1) m := by
    rw [hshort, lastOfMonth_eq h]
  refine ⟨_, hgreatest, ⟨fun hafter hfebruary => ?_, fun hnot => ?_⟩, fun hfebruary => ?_⟩
  · -- a day of that February is not after its last one
    have hwithin := isLeast_firstWorkingDay_of_lt hyear h (hleap.1 hfebruary)
    exact not_le.2 hafter.1.1 (hgreatest.1.2.2.2 hwithin.1.1)
  · exact isLeast_firstWorkingDay hyear h (not_lt.1 fun hlt => hnot (hleap.2 hlt))
  · exact isLeast_firstWorkingDay_of_lt hyear h (hleap.1 hfebruary)

/-- The fiscal year from July 2024 on, in the calendar year where it begins. -/
theorem first_workingDay_of_fiscalYear_july :
    (1 ≤ 6 ∧ 6 ≤ 12 ∧ leastYear < 2024 ∧ (2024 : Int) < greatestYear) ∧
    IsLeast (Set.Ioi ⟨2024, 6, 30, by decide⟩ ∩ workingDays) ⟨2024, 7, 1, by decide⟩ := by
  obtain ⟨p, hp, hiff, -⟩ := first_workingDay_of_fiscalYear (m := 6)
    (d := ⟨2024, 9, 1, by decide⟩) (by decide) (by decide) (by decide) (by decide)
  have hbefore := isGreatest_before (followed_before (m := 6) (d := ⟨2024, 9, 1, by decide⟩)
    (by decide) (by decide) (by decide) (by decide))
  have hjune : lastOfMonth (fiscalYear ⟨2024, 9, 1, by decide⟩ 6 - 1) 6 =
      ⟨2024, 6, 30, by decide⟩ := by
    decide
  have hjuly : firstWorkingDayOfFiscalYear ⟨2024, 9, 1, by decide⟩ 6 = ⟨2024, 7, 1, by decide⟩ := by
    decide
  rw [hp.unique hbefore, hjune, hjuly] at hiff
  exact ⟨by decide, hiff.2 (by decide)⟩

/-- The fiscal year after the one that ends on 29 February 2024 is said to begin four weeks before
that day. -/
theorem first_workingDay_before_leapDay :
    IsGreatest (Set.Iio ⟨2024, 6, 1, by decide⟩ ∩ fiscalYearEnds 2) ⟨2024, 2, 29, by decide⟩ ∧
    firstWorkingDayOfFiscalYear ⟨2024, 6, 1, by decide⟩ 2 = ⟨2024, 2, 1, by decide⟩ ∧
    ¬ IsLeast (Set.Ioi ⟨2024, 2, 29, by decide⟩ ∩ workingDays)
      (firstWorkingDayOfFiscalYear ⟨2024, 6, 1, by decide⟩ 2) := by
  have hbefore := isGreatest_before (followed_before (m := 2) (d := ⟨2024, 6, 1, by decide⟩)
    (by decide) (by decide) (by decide) (by decide))
  have hleapDay : lastOfMonth (fiscalYear ⟨2024, 6, 1, by decide⟩ 2 - 1) 2 =
      ⟨2024, 2, 29, by decide⟩ := by
    decide
  have hfebruary : firstWorkingDayOfFiscalYear ⟨2024, 6, 1, by decide⟩ 2 =
      ⟨2024, 2, 1, by decide⟩ := by
    decide
  rw [hleapDay] at hbefore
  refine ⟨hbefore, hfebruary, fun h => ?_⟩
  rw [hfebruary] at h
  exact absurd h.1.1 (by decide)

end Rulebook.Date
