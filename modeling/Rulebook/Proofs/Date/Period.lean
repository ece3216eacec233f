import Mathlib.Order.Bounds.Basic
import Rulebook.Date.Period
import Rulebook.Proofs.Date.Order

/-!
# Where months, quarters and fiscal years end

The periods as sets of days, and the ends of those that hold a day.  A fiscal year ends on the last
day of a month `m`, and two days are in the same one unless such an end lies between them.

    IsGreatest (monthOf d) (endOfMonth d)
    IsGreatest (quarterOf d) (endOfQuarter d)
    IsLeast (Set.Ici d ∩ fiscalYearEnds m) (endOfFiscalYear d m)

All three hold as long as a month follows the one that the period ends with (`Followed`), so in
every year but the last.  In the last one the ends may lie before the day, and `end_lt_iff` says on
which days they do.
-/

namespace Rulebook.Date

variable {year : Int} {month m : Nat} {d e : Date} {f : Date → Date}

/-! ## Periods -/

/-- The days of the month of `d`. -/
def monthOf (d : Date) : Set Date := {e | e.year = d.year ∧ e.month = d.month}

/-- The days of the calendar quarter of `d`. -/
def quarterOf (d : Date) : Set Date :=
  {e | e.year = d.year ∧ (e.month - 1) / 3 = (d.month - 1) / 3}

/-- The last days of all months `m`. -/
def fiscalYearEnds (m : Nat) : Set Date := {e | e.month = m ∧ IsGreatest (monthOf e) e}

/-- The days that no end of a fiscal year separates from `d`. -/
def fiscalYearOf (m : Nat) (d : Date) : Set Date := {e | ∀ x ∈ fiscalYearEnds m, d ≤ x ↔ e ≤ x}

theorem mem_monthOf : e ∈ monthOf d ↔ e.year = d.year ∧ e.month = d.month := Iff.rfl

theorem mem_quarterOf :
    e ∈ quarterOf d ↔ e.year = d.year ∧ (e.month - 1) / 3 = (d.month - 1) / 3 := Iff.rfl

/-- The last day of a month is the one whose number is its length. -/
theorem isGreatest_monthOf_iff : IsGreatest (monthOf d) e ↔
    e.year = d.year ∧ e.month = d.month ∧ e.day = monthLength d.year d.month := by
  constructor
  · rintro ⟨⟨hyear, hmonth⟩, hgreatest⟩
    refine ⟨hyear, hmonth, ?_⟩
    obtain ⟨hleast, hlast, hfirst, hday⟩ := e.valid
    rw [hyear] at hleast hlast
    rw [hyear, hmonth] at hday
    let last : Date := ⟨d.year, d.month, monthLength d.year d.month, hleast, hlast,
      Nat.le_trans hfirst hday, Nat.le_refl _⟩
    have hle : last ≤ e := hgreatest ⟨rfl, rfl⟩
    rw [le_iff] at hle
    simp only [last] at hle
    omega
  · rintro ⟨hyear, hmonth, hday⟩
    refine ⟨⟨hyear, hmonth⟩, fun x ⟨hxyear, hxmonth⟩ => ?_⟩
    have hx := x.valid.2.2.2
    rw [hxyear, hxmonth] at hx
    rw [le_iff]
    omega

theorem mem_fiscalYearEnds_iff :
    e ∈ fiscalYearEnds m ↔ e.month = m ∧ e.day = monthLength e.year e.month := by
  have hiff : e ∈ fiscalYearEnds m ↔ e.month = m ∧ IsGreatest (monthOf e) e := Iff.rfl
  rw [hiff, isGreatest_monthOf_iff]
  simp

theorem quarterMonth_eq (d : Date) : quarterMonth d = (d.month - 1) / 3 * 3 + 1 := rfl

/-- The fiscal year of a day ends in its own year or in the next one. -/
theorem fiscalYear_cases (d : Date) (m : Nat) :
    d.month ≤ m ∧ fiscalYear d m = d.year ∨ m < d.month ∧ fiscalYear d m = d.year + 1 := by
  rcases Nat.lt_or_ge m d.month with hlater | hwithin
  · exact .inr ⟨hlater, if_neg (Nat.not_le.2 hlater)⟩
  · exact .inl ⟨hwithin, if_pos hwithin⟩

/-! ## Moving by months -/

/-- The month is in the calendar, and so is the one after it. -/
structure Followed (year : Int) (month : Nat) : Prop where
  least_le : leastYear ≤ year
  one_le : 1 ≤ month
  le_twelve : month ≤ 12
  follows : year < greatestYear ∨ year = greatestYear ∧ month < 12

theorem exists_first (hleast : leastYear ≤ year) (hgreatest : year ≤ greatestYear)
    (h1 : 1 ≤ month) (h12 : month ≤ 12) : Exists year month 1 := by
  have hlength := le_monthLength year month h1 h12
  exact ⟨hleast, hgreatest, Nat.le_refl 1, by omega⟩

theorem exists_firstOfMonth (d : Date) : Exists d.year d.month 1 := by
  obtain ⟨h1, h12⟩ := month_le d.valid
  exact exists_first d.valid.1 d.valid.2.1 h1 h12

theorem exists_firstOfQuarter (d : Date) : Exists d.year (quarterMonth d) 1 := by
  have hmonth := month_le d.valid
  have hquarter := quarterMonth_eq d
  exact exists_first d.valid.1 d.valid.2.1 (by omega) (by omega)

theorem Followed.exists_first (h : Followed year month) : Exists year month 1 := by
  obtain ⟨hleast, h1, h12, hfollows⟩ := h
  exact Date.exists_first hleast (by omega) h1 h12

theorem Followed.exists_last (h : Followed year month) :
    Exists year month (monthLength year month) := by
  obtain ⟨hleast, hgreatest, hfirst, hlast⟩ := h.exists_first
  exact ⟨hleast, hgreatest, hlast, Nat.le_refl _⟩

/-- Only the last month of all is not followed. -/
theorem followed_or_last (h : Exists year month 1) :
    Followed year month ∨ year = greatestYear ∧ month = 12 := by
  obtain ⟨h1, h12⟩ := month_le h
  obtain ⟨hleast, hgreatest, -, -⟩ := h
  by_cases hlast : year = greatestYear ∧ month = 12
  · exact .inr hlast
  · exact .inl ⟨hleast, h1, h12, by omega⟩

/-- Months are counted through the years. -/
theorem addMonths?_eq {n : Int} (h1 : 1 ≤ month) (h12 : month ≤ 12)
    (hn : d.year * 12 + d.month + n = year * 12 + month) :
    d.addMonths? n = ofYmd? year month (min d.day (monthLength year month)) := by
  have hmonth := month_le d.valid
  have hyear : (d.year * 12 + (d.month - 1 : Nat) + n) / 12 = year := by omega
  have hrest : ((d.year * 12 + (d.month - 1 : Nat) + n) % 12).toNat + 1 = month := by omega
  simp only [addMonths?, hyear, hrest]

theorem addMonths?_first {n : Int} (hday : d.day = 1) (h : Exists year month 1)
    (hn : d.year * 12 + d.month + n = year * 12 + month) :
    d.addMonths? n = some ⟨year, month, 1, h⟩ := by
  obtain ⟨h1, h12⟩ := month_le h
  rw [addMonths?_eq h1 h12 hn, hday, Nat.min_eq_left h.2.2.2, ofYmd?_of_exists h]

/-- The first day of the next month comes as many days later as the month is long. -/
theorem Followed.exists_addMonths? (h : Followed year month) :
    ∃ e, (Date.mk year month 1 h.exists_first).addMonths? 1 = some e ∧
      e.number = daysBeforeYear year + daysBeforeMonth year month + monthLength year month + 1 := by
  obtain ⟨hleast, h1, h12, hfollows⟩ := h
  by_cases hlast : month < 12
  · have hnext : Exists year (month + 1) 1 :=
      Date.exists_first hleast (by omega) (by omega) (by omega)
    refine ⟨_, addMonths?_first rfl hnext (by push_cast; omega), ?_⟩
    rw [number_mk, daysBeforeMonth_succ]
    omega
  · have hdecember : month = 12 := by omega
    subst hdecember
    have hnext : Exists (year + 1) 1 1 :=
      Date.exists_first (by omega) (by omega) (by omega) (by omega)
    have hlength := daysBeforeMonth_end year
    refine ⟨_, addMonths?_first rfl hnext (by push_cast; omega), ?_⟩
    rw [number_mk, daysBeforeYear_succ, daysBeforeMonth_one, monthLength_twelve]
    omega

/-! ## First and last days of months -/

theorem firstOfMonth_eq (h : Exists year month 1) :
    firstOfMonth year month = ⟨year, month, 1, h⟩ := by
  rw [firstOfMonth, ofYmd?_of_exists h]
  rfl

/-- The first day of the next month, and one day back. -/
theorem lastOfMonth_eq (h : Followed year month) :
    lastOfMonth year month = ⟨year, month, monthLength year month, h.exists_last⟩ := by
  obtain ⟨e, hnext, hnumber⟩ := h.exists_addMonths?
  have hback : e.previous? = some ⟨year, month, monthLength year month, h.exists_last⟩ := by
    rw [previous?_eq_some_iff, hnumber, number_mk]
    omega
  rw [lastOfMonth, firstOfMonth_eq h.exists_first]
  simp only [hnext, Option.bind_some, hback, Option.getD_some]

theorem le_lastOfMonth_iff (h : Followed year month) :
    e ≤ lastOfMonth year month ↔ e.year < year ∨ e.year = year ∧ e.month ≤ month := by
  rw [lastOfMonth_eq h, le_iff]
  simp only
  have hday := e.valid.2.2.2
  constructor
  · omega
  · rintro (hyear | ⟨rfl, hmonth⟩)
    · exact .inl hyear
    · rcases Nat.lt_or_eq_of_le hmonth with hlt | rfl
      · exact .inr ⟨rfl, .inl hlt⟩
      · exact .inr ⟨rfl, .inr ⟨rfl, hday⟩⟩

/-- The month after the last one does not exist, and the first day of the last month stays. -/
theorem lastOfMonth_latest :
    lastOfMonth greatestYear 12 = ⟨greatestYear, 12, 1, by decide⟩ := by
  decide

/-- A year after the last one has no first day, and the first month of all stands in for it. -/
theorem lastOfMonth_beyond (h : greatestYear < year) (month : Nat) :
    lastOfMonth year month = ⟨leastYear, 1, 31, by decide⟩ := by
  have hnone : ofYmd? year month 1 = none := dif_neg fun hexists => by
    have hgreatest := hexists.2.1
    omega
  rw [lastOfMonth, firstOfMonth, hnone]
  decide

/-! ## Ends of periods -/

theorem isGreatest_endOfMonth (h : Followed d.year d.month) :
    IsGreatest (monthOf d) (endOfMonth d) := by
  rw [isGreatest_monthOf_iff, endOfMonth, lastOfMonth_eq h]
  exact ⟨rfl, rfl, rfl⟩

theorem isGreatest_endOfQuarter (h : Followed d.year (quarterMonth d + 2)) :
    IsGreatest (quarterOf d) (endOfQuarter d) := by
  have hquarter := quarterMonth_eq d
  constructor
  · rw [endOfQuarter, lastOfMonth_eq h]
    refine ⟨rfl, ?_⟩
    show (quarterMonth d + 2 - 1) / 3 = (d.month - 1) / 3
    omega
  · rintro x ⟨hyear, hmonth⟩
    have hx := month_le x.valid
    rw [endOfQuarter, le_lastOfMonth_iff h, hquarter]
    omega

theorem isLeast_endOfFiscalYear (h : Followed (fiscalYear d m) m) :
    IsLeast (Set.Ici d ∩ fiscalYearEnds m) (endOfFiscalYear d m) := by
  have hyear := fiscalYear_cases d m
  refine ⟨⟨?_, ?_⟩, ?_⟩
  · rw [Set.mem_Ici, endOfFiscalYear, le_lastOfMonth_iff h]
    omega
  · rw [endOfFiscalYear, lastOfMonth_eq h, mem_fiscalYearEnds_iff]
    exact ⟨rfl, rfl⟩
  · rintro x ⟨hdx, hx⟩
    rw [mem_fiscalYearEnds_iff] at hx
    rw [Set.mem_Ici, le_iff] at hdx
    obtain ⟨rfl, hday⟩ := hx
    have hle : fiscalYear d x.month ≤ x.year := by omega
    rw [endOfFiscalYear, lastOfMonth_eq h, le_iff]
    rcases Int.lt_or_eq_of_le hle with hlt | heq
    · exact .inl hlt
    · refine .inr ⟨heq, .inr ⟨rfl, ?_⟩⟩
      rw [hday, ← heq]

/-- No end of a fiscal year lies between a day and the first such end that is not before it. -/
theorem isGreatest_endOfFiscalYear (h : Followed (fiscalYear d m) m) :
    IsGreatest (fiscalYearOf m d) (endOfFiscalYear d m) := by
  obtain ⟨⟨hle, hmem⟩, hleast⟩ := isLeast_endOfFiscalYear h
  constructor
  · intro x hx
    exact ⟨fun hdx => hleast ⟨hdx, hx⟩, fun hex => le_trans hle hex⟩
  · intro e he
    exact (he _ hmem).1 hle

/-! ## Periods divide the calendar -/

/-- Every day is in one of the periods, and each of them is a stretch of days. -/
structure Periods (P : Date → Set Date) : Prop where
  self : ∀ d, d ∈ P d
  same : ∀ {d e}, e ∈ P d → P e = P d
  between : ∀ {d e x}, d ≤ e → e ≤ x → x ∈ P d → e ∈ P d

theorem periods_month : Periods monthOf where
  self _ := ⟨rfl, rfl⟩
  same := by
    rintro d e ⟨hyear, hmonth⟩
    ext x
    rw [mem_monthOf, mem_monthOf, hyear, hmonth]
  between := by
    rintro d e x hde hex ⟨hyear, hmonth⟩
    rw [le_iff] at hde hex
    rw [mem_monthOf]
    omega

theorem periods_quarter : Periods quarterOf where
  self _ := ⟨rfl, rfl⟩
  same := by
    rintro d e ⟨hyear, hmonth⟩
    ext x
    rw [mem_quarterOf, mem_quarterOf, hyear, hmonth]
  between := by
    rintro d e x hde hex ⟨hyear, hmonth⟩
    rw [le_iff] at hde hex
    rw [mem_quarterOf]
    omega

theorem periods_fiscalYear (m : Nat) : Periods (fiscalYearOf m) where
  self _ _ _ := Iff.rfl
  same := by
    intro d e he
    ext x
    constructor
    · intro hx y hy
      exact (he y hy).trans (hx y hy)
    · intro hx y hy
      exact (he y hy).symm.trans (hx y hy)
  between := by
    intro d e x hde hex hx y hy
    exact ⟨fun hdy => le_trans hex ((hx y hy).1 hdy), fun hey => le_trans hde hey⟩

/-- A function to the last day of the period, on the days that `has` it, never goes back, does
nothing the second time, and keeps the order of days. -/
theorem Periods.ends {P : Date → Set Date} {has : Date → Prop} (hP : Periods P)
    (hlast : ∀ {d}, has d → IsGreatest (P d) (f d)) (hagain : ∀ {d}, has d → has (f d))
    (hd : has d) : d ≤ f d ∧ f (f d) = f d ∧ ∀ e, has e → d ≤ e → f d ≤ f e := by
  refine ⟨(hlast hd).2 (hP.self d), ?_, fun e he hde => ?_⟩
  · have htwice := hlast (hagain hd)
    rw [hP.same (hlast hd).1] at htwice
    exact htwice.unique (hlast hd)
  · rcases lt_or_ge (f d) e with hlt | hle
    · exact le_trans hlt.le ((hlast he).2 (hP.self e))
    · -- a day up to the end is in the period, so that the two ends are the same
      have hlater := hlast he
      rw [hP.same (hP.between hde hle (hlast hd).1)] at hlater
      exact ((hlast hd).unique hlater).le

/-! ## Ends in every year but the last -/

theorem followed_month (hd : d.year < greatestYear) : Followed d.year d.month := by
  have hmonth := month_le d.valid
  exact ⟨d.valid.1, hmonth.1, hmonth.2, .inl hd⟩

theorem followed_quarter (hd : d.year < greatestYear) : Followed d.year (quarterMonth d + 2) := by
  have hmonth := month_le d.valid
  have hquarter := quarterMonth_eq d
  exact ⟨d.valid.1, by omega, by omega, .inl hd⟩

theorem followed_fiscalYear (h1 : 1 ≤ m) (h12 : m ≤ 12) (hd : d.year < greatestYear) :
    Followed (fiscalYear d m) m := by
  have hmonth := month_le d.valid
  have hleast := d.valid.1
  have hyear := fiscalYear_cases d m
  exact ⟨by omega, h1, h12, by omega⟩

theorem followed_endOfMonth (h : Followed d.year d.month) :
    Followed (endOfMonth d).year (endOfMonth d).month := by
  rw [endOfMonth, lastOfMonth_eq h]
  exact h

theorem followed_endOfQuarter (h : Followed d.year (quarterMonth d + 2)) :
    Followed (endOfQuarter d).year (quarterMonth (endOfQuarter d) + 2) := by
  have hmonth : quarterMonth (endOfQuarter d) = quarterMonth d := by
    rw [endOfQuarter, lastOfMonth_eq h]
    simp only [quarterMonth]
    omega
  rw [hmonth, endOfQuarter, lastOfMonth_eq h]
  exact h

theorem followed_endOfFiscalYear (h : Followed (fiscalYear d m) m) :
    Followed (fiscalYear (endOfFiscalYear d m) m) m := by
  have hyear : fiscalYear (endOfFiscalYear d m) m = fiscalYear d m := by
    rw [endOfFiscalYear, lastOfMonth_eq h]
    exact if_pos (Nat.le_refl m)
  rw [hyear]
  exact h

/-- **Ends of months, quarters and fiscal years.**  They are the last days of the month and of the
quarter and the first end of a fiscal year from `d` on.  So none of them is before `d`, each is its
own end, and a later day has no earlier one. -/
theorem ends_of_periods (h1 : 1 ≤ m) (h12 : m ≤ 12) (hd : d.year < greatestYear) :
    IsGreatest (monthOf d) (endOfMonth d) ∧
    IsGreatest (quarterOf d) (endOfQuarter d) ∧
    IsLeast (Set.Ici d ∩ fiscalYearEnds m) (endOfFiscalYear d m) ∧
    ∀ f ∈ [endOfMonth, endOfQuarter, (endOfFiscalYear · m)],
      d ≤ f d ∧ f (f d) = f d ∧ ∀ e : Date, e.year < greatestYear → d ≤ e → f d ≤ f e := by
  refine ⟨isGreatest_endOfMonth (followed_month hd), isGreatest_endOfQuarter (followed_quarter hd),
    isLeast_endOfFiscalYear (followed_fiscalYear h1 h12 hd), ?_⟩
  simp only [List.forall_mem_cons]
  refine ⟨?_, ?_, ?_, nofun⟩
  · obtain ⟨hle, htwice, hmono⟩ := periods_month.ends isGreatest_endOfMonth followed_endOfMonth
      (followed_month hd)
    exact ⟨hle, htwice, fun e he => hmono e (followed_month he)⟩
  · obtain ⟨hle, htwice, hmono⟩ := periods_quarter.ends isGreatest_endOfQuarter
      followed_endOfQuarter (followed_quarter hd)
    exact ⟨hle, htwice, fun e he => hmono e (followed_quarter he)⟩
  · obtain ⟨hle, htwice, hmono⟩ := (periods_fiscalYear m).ends isGreatest_endOfFiscalYear
      followed_endOfFiscalYear (followed_fiscalYear h1 h12 hd)
    exact ⟨hle, htwice, fun e he => hmono e (followed_fiscalYear h1 h12 he)⟩

/-- The last days of February in a common year and in a leap year. -/
theorem ends_of_periods_february :
    (1 ≤ 2 ∧ 2 ≤ 12 ∧ (2023 : Int) < greatestYear) ∧
    IsGreatest (monthOf ⟨2023, 2, 10, by decide⟩) ⟨2023, 2, 28, by decide⟩ ∧
    IsGreatest (quarterOf ⟨2023, 2, 10, by decide⟩) ⟨2023, 3, 31, by decide⟩ ∧
    IsLeast (Set.Ici ⟨2023, 3, 1, by decide⟩ ∩ fiscalYearEnds 2) ⟨2024, 2, 29, by decide⟩ := by
  have hfebruary := ends_of_periods (d := ⟨2023, 2, 10, by decide⟩) (show 1 ≤ 2 by decide)
    (by decide) (by decide)
  have hmarch := ends_of_periods (d := ⟨2023, 3, 1, by decide⟩) (show 1 ≤ 2 by decide)
    (by decide) (by decide)
  have hmonth : endOfMonth ⟨2023, 2, 10, by decide⟩ = ⟨2023, 2, 28, by decide⟩ := by decide
  have hquarter : endOfQuarter ⟨2023, 2, 10, by decide⟩ = ⟨2023, 3, 31, by decide⟩ := by decide
  have hyear : endOfFiscalYear ⟨2023, 3, 1, by decide⟩ 2 = ⟨2024, 2, 29, by decide⟩ := by decide
  rw [hmonth, hquarter] at hfebruary
  rw [hyear] at hmarch
  exact ⟨by decide, hfebruary.1, hfebruary.2.1, hmarch.2.2.1⟩

/-! ## At the limits of the calendar -/

theorem lastOfMonth_latest_lt_iff :
    lastOfMonth greatestYear 12 < d ↔ d.year = greatestYear ∧ d.month = 12 ∧ 1 < d.day := by
  have hmonth := month_le d.valid
  have hgreatest := d.valid.2.1
  rw [lastOfMonth_latest, lt_iff]
  simp only
  omega

theorem endOfMonth_lt_iff :
    endOfMonth d < d ↔ d.year = greatestYear ∧ d.month = 12 ∧ 1 < d.day := by
  rcases followed_or_last (exists_firstOfMonth d) with h | ⟨hyear, hmonth⟩
  · have hle := (isGreatest_endOfMonth h).2 (periods_month.self d)
    have hfollows := h.follows
    exact iff_of_false (not_lt.2 hle) (by omega)
  · have hend : endOfMonth d = lastOfMonth greatestYear 12 := by
      rw [endOfMonth, hyear, hmonth]
    rw [hend, lastOfMonth_latest_lt_iff]

theorem endOfQuarter_lt_iff :
    endOfQuarter d < d ↔ d.year = greatestYear ∧ d.month = 12 ∧ 1 < d.day := by
  have hmonth := month_le d.valid
  have hquarter := quarterMonth_eq d
  have hfirst : Exists d.year (quarterMonth d + 2) 1 :=
    exists_first d.valid.1 d.valid.2.1 (by omega) (by omega)
  rcases followed_or_last hfirst with h | ⟨hyear, hlast⟩
  · have hle := (isGreatest_endOfQuarter h).2 (periods_quarter.self d)
    have hfollows := h.follows
    exact iff_of_false (not_lt.2 hle) (by omega)
  · have hend : endOfQuarter d = lastOfMonth greatestYear 12 := by
      rw [endOfQuarter, hyear, hlast]
    rw [hend, lastOfMonth_latest_lt_iff]

theorem endOfFiscalYear_lt_iff (h1 : 1 ≤ m) (h12 : m ≤ 12) : endOfFiscalYear d m < d ↔
    d.year = greatestYear ∧ (m < d.month ∨ m = 12 ∧ d.month = 12 ∧ 1 < d.day) := by
  have hmonth := month_le d.valid
  obtain ⟨hleast, hgreatest, -, -⟩ := d.valid
  have hyear := fiscalYear_cases d m
  rcases Int.lt_or_le greatestYear (fiscalYear d m) with hbeyond | hwithin
  · -- the end would be in the year after the last one
    have hlimits : leastYear < greatestYear := by decide
    rw [endOfFiscalYear, lastOfMonth_beyond hbeyond, lt_iff]
    simp only
    omega
  · rcases followed_or_last (exists_first (by omega) hwithin h1 h12) with h | ⟨hlast, htwelve⟩
    · have hle : d ≤ endOfFiscalYear d m := (isLeast_endOfFiscalYear h).1.1
      have hfollows := h.follows
      exact iff_of_false (not_lt.2 hle) (by omega)
    · have hend : endOfFiscalYear d m = lastOfMonth greatestYear 12 := by
        rw [endOfFiscalYear, hlast, htwelve]
      rw [hend, lastOfMonth_latest_lt_iff]
      omega

/-- **When the end of a period is before the day.**  Only in the last year of all: in its last
month, where the first day stands in for the last one, and, of fiscal years, when the end would be
in the year after it. -/
theorem end_lt_iff (h1 : 1 ≤ m) (h12 : m ≤ 12) (d : Date) :
    (endOfMonth d < d ↔ d.year = greatestYear ∧ d.month = 12 ∧ 1 < d.day) ∧
    (endOfQuarter d < d ↔ d.year = greatestYear ∧ d.month = 12 ∧ 1 < d.day) ∧
    (endOfFiscalYear d m < d ↔ d.year = greatestYear ∧
      (m < d.month ∨ m = 12 ∧ d.month = 12 ∧ 1 < d.day)) :=
  ⟨endOfMonth_lt_iff, endOfQuarter_lt_iff, endOfFiscalYear_lt_iff h1 h12⟩

/-- The first of July of the last year, where a fiscal year that ends in June ends in the first year
and the month ends as it should. -/
theorem end_lt_iff_july : (1 ≤ 6 ∧ 6 ≤ 12) ∧
    endOfFiscalYear ⟨greatestYear, 7, 1, by decide⟩ 6 < ⟨greatestYear, 7, 1, by decide⟩ ∧
    ¬ endOfMonth ⟨greatestYear, 7, 1, by decide⟩ < ⟨greatestYear, 7, 1, by decide⟩ := by
  obtain ⟨hmonth, -, hyear⟩ := end_lt_iff (m := 6) (by decide) (by decide)
    ⟨greatestYear, 7, 1, by decide⟩
  refine ⟨by decide, hyear.2 ⟨rfl, .inl (by decide)⟩, fun h => ?_⟩
  obtain ⟨-, hdecember, -⟩ := hmonth.1 h
  cases hdecember

/-- The last day of all, which is after the end of its own month, quarter and year. -/
theorem end_before_latest : endOfMonth latest < latest ∧ endOfQuarter latest < latest ∧
    endOfFiscalYear latest 12 < latest := by
  decide

end Rulebook.Date
