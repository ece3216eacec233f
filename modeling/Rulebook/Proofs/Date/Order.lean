import Mathlib.Data.Prod.Lex
import Rulebook.Proofs.Date.Basic

/-!
# Days in order

Days are ordered by year, month and day.  Their numbers keep that order, and the day after a day has
the next number:

    a < b                ↔  a.number < b.number          (number_lt_iff)
    d.next? = some e     ↔  e.number = d.number + 1      (next?_eq_some_iff)
    d.previous? = some e ↔  e.number = d.number - 1      (previous?_eq_some_iff)

So what is said of days one after another is said of whole numbers.  There is no next day only after
the last day of all, and no previous day only before the first.
-/

namespace Rulebook.Date

variable {a b c d e : Date}

/-! ## The order -/

def key (d : Date) : Int ×ₗ Nat ×ₗ Nat := toLex (d.year, toLex (d.month, d.day))

theorem ext_of_parts (hyear : a.year = b.year) (hmonth : a.month = b.month)
    (hday : a.day = b.day) : a = b := by
  obtain ⟨_, _, _, _⟩ := a
  cases hyear
  cases hmonth
  cases hday
  rfl

theorem key_injective : Function.Injective key := by
  intro a b h
  simp only [key, EmbeddingLike.apply_eq_iff_eq, Prod.mk.injEq] at h
  exact ext_of_parts h.1 h.2.1 h.2.2

instance : LinearOrder Date := LinearOrder.lift' key key_injective

theorem lt_iff : a < b ↔ a.year < b.year ∨
    a.year = b.year ∧ (a.month < b.month ∨ a.month = b.month ∧ a.day < b.day) := by
  show key a < key b ↔ _
  rw [key, key, Prod.Lex.toLex_lt_toLex, Prod.Lex.toLex_lt_toLex]

theorem le_iff : a ≤ b ↔ a.year < b.year ∨
    a.year = b.year ∧ (a.month < b.month ∨ a.month = b.month ∧ a.day ≤ b.day) := by
  rw [← not_lt, lt_iff]
  omega

theorem le_latest (d : Date) : d ≤ latest := by
  have hmonth := month_le d.valid
  have hday := day_le d.valid
  have hyear := d.valid.2.1
  rw [le_iff]
  simp only [latest]
  omega

theorem earliest_le (d : Date) : earliest ≤ d := by
  have hmonth := month_le d.valid
  have hday := d.valid.2.2.1
  have hyear := d.valid.1
  rw [le_iff]
  simp only [earliest]
  omega

/-! ## Numbers of days -/

theorem number_lt_of_lt (h : a < b) : a.number < b.number := by
  have hday := a.valid.2.2.2
  have hfirst := b.valid.2.2.1
  rw [number_eq, number_eq]
  rcases lt_iff.1 h with hyear | ⟨hyear, hmonth | ⟨hmonth, hday⟩⟩
  · have hbefore := daysBeforeYear_of_lt hyear
    have hwithin := daysBeforeMonth_add_day_le a
    omega
  · have hbefore := daysBeforeMonth_of_lt a.year hmonth
    rw [← hyear]
    omega
  · rw [← hyear, ← hmonth]
    omega

theorem number_lt_iff : a.number < b.number ↔ a < b := by
  refine ⟨fun h => ?_, number_lt_of_lt⟩
  rcases lt_trichotomy a b with hlt | heq | hgt
  · exact hlt
  · rw [heq] at h
    omega
  · have hback := number_lt_of_lt hgt
    omega

theorem number_le_iff : a.number ≤ b.number ↔ a ≤ b := by
  rw [← Int.not_lt, number_lt_iff, not_lt]

theorem number_inj : a.number = b.number ↔ a = b := by
  refine ⟨fun h => ?_, fun h => by rw [h]⟩
  exact le_antisymm (number_le_iff.1 (Int.le_of_eq h)) (number_le_iff.1 (Int.le_of_eq h.symm))

/-! ## One day after another -/

theorem number_of_next? (h : d.next? = some e) : e.number = d.number + 1 := by
  have hmonth := month_le d.valid
  have hlast := d.valid.2.2.2
  unfold next? at h
  rw [number_eq, number_eq]
  split at h
  · obtain ⟨hyear, hmonth', hday'⟩ := ofYmd?_eq_some_iff.1 h
    rw [hyear, hmonth', hday']
    omega
  · next hday =>
    split at h
    · obtain ⟨hyear, hmonth', hday'⟩ := ofYmd?_eq_some_iff.1 h
      rw [hyear, hmonth', hday', daysBeforeMonth_succ]
      omega
    · -- the last day of the year
      obtain ⟨hyear, hmonth', hday'⟩ := ofYmd?_eq_some_iff.1 h
      have hdecember : d.month = 12 := by omega
      have hlength := daysBeforeMonth_end d.year
      rw [hdecember, monthLength_twelve] at hday hlast
      rw [hyear, hmonth', hday', hdecember, daysBeforeYear_succ, daysBeforeMonth_one]
      omega

theorem exists_next? (h : d < latest) : ∃ e, d.next? = some e := by
  have hmonth := month_le d.valid
  obtain ⟨hleast, hgreatest, hfirst, hlast⟩ := d.valid
  unfold next?
  split
  · exact ⟨_, ofYmd?_of_exists ⟨hleast, hgreatest, by omega, by omega⟩⟩
  · next hday =>
    split
    · have hlength := le_monthLength d.year (d.month + 1) (by omega) (by omega)
      exact ⟨_, ofYmd?_of_exists ⟨hleast, hgreatest, by omega, by omega⟩⟩
    · have hdecember : d.month = 12 := by omega
      rw [hdecember, monthLength_twelve] at hday
      have hyear : d.year < greatestYear := by
        simp only [lt_iff, latest] at h
        omega
      have hlength := le_monthLength (d.year + 1) 1 (by omega) (by omega)
      exact ⟨_, ofYmd?_of_exists ⟨by omega, by omega, by omega, by omega⟩⟩

theorem next?_eq_some_iff : d.next? = some e ↔ e.number = d.number + 1 := by
  constructor
  · exact number_of_next?
  · intro h
    have hlt : d < e := number_lt_iff.1 (by omega)
    obtain ⟨e', he'⟩ := exists_next? (lt_of_lt_of_le hlt (le_latest e))
    have heq : e' = e := number_inj.1 (by rw [number_of_next? he', h])
    rw [he', heq]

/-- The next day is the first one after `d`. -/
theorem exists_next?_le (h : d < c) : ∃ e, d.next? = some e ∧ d < e ∧ e ≤ c := by
  obtain ⟨e, he⟩ := exists_next? (lt_of_lt_of_le h (le_latest c))
  have hnumber := number_of_next? he
  rw [← number_lt_iff] at h
  exact ⟨e, he, number_lt_iff.1 (by omega), number_le_iff.1 (by omega)⟩

theorem number_of_previous? (h : d.previous? = some e) : e.number = d.number - 1 := by
  have hmonth := month_le d.valid
  have hfirst := d.valid.2.2.1
  unfold previous? at h
  rw [number_eq, number_eq]
  split at h
  · obtain ⟨hyear, hmonth', hday'⟩ := ofYmd?_eq_some_iff.1 h
    rw [hyear, hmonth', hday']
    omega
  · split at h
    · obtain ⟨hyear, hmonth', hday'⟩ := ofYmd?_eq_some_iff.1 h
      have hlength := daysBeforeMonth_succ d.year (d.month - 1)
      rw [Nat.sub_add_cancel hmonth.1] at hlength
      rw [hyear, hmonth', hday', hlength]
      omega
    · -- the first day of the year
      obtain ⟨hyear, hmonth', hday'⟩ := ofYmd?_eq_some_iff.1 h
      have hjanuary : d.month = 1 := by omega
      have hlength := daysBeforeMonth_end (d.year - 1)
      have hbefore := daysBeforeYear_succ (d.year - 1)
      rw [Int.sub_add_cancel] at hbefore
      rw [hyear, hmonth', hday', hjanuary, hbefore, daysBeforeMonth_one]
      omega

theorem exists_previous? (h : earliest < d) : ∃ e, d.previous? = some e := by
  have hmonth := month_le d.valid
  obtain ⟨hleast, hgreatest, hfirst, hlast⟩ := d.valid
  unfold previous?
  split
  · exact ⟨_, ofYmd?_of_exists ⟨hleast, hgreatest, by omega, by omega⟩⟩
  · split
    · have hlength := le_monthLength d.year (d.month - 1) (by omega) (by omega)
      exact ⟨_, ofYmd?_of_exists ⟨hleast, hgreatest, by omega, Nat.le_refl _⟩⟩
    · have hyear : leastYear < d.year := by
        simp only [lt_iff, earliest] at h
        omega
      exact ⟨_, ofYmd?_of_exists ⟨by omega, by omega, by omega, Nat.le_refl 31⟩⟩

theorem previous?_eq_some_iff : d.previous? = some e ↔ e.number = d.number - 1 := by
  constructor
  · exact number_of_previous?
  · intro h
    have hlt : e < d := number_lt_iff.1 (by omega)
    obtain ⟨e', he'⟩ := exists_previous? (lt_of_le_of_lt (earliest_le e) hlt)
    have heq : e' = e := number_inj.1 (by rw [number_of_previous? he', h])
    rw [he', heq]

/-- The previous day is the last one before `d`. -/
theorem exists_le_previous? (h : c < d) : ∃ e, d.previous? = some e ∧ e < d ∧ c ≤ e := by
  obtain ⟨e, he⟩ := exists_previous? (lt_of_le_of_lt (earliest_le c) h)
  have hnumber := number_of_previous? he
  rw [← number_lt_iff] at h
  exact ⟨e, he, number_lt_iff.1 (by omega), number_le_iff.1 (by omega)⟩

end Rulebook.Date
