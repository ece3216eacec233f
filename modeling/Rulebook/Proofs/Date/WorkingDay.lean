import Mathlib.Order.Bounds.Basic
import Rulebook.Date.Period
import Rulebook.Proofs.Date.Order

/-!
# Days of the week, and the search for a working day

Every day has the day of the week that follows that of the day before (`weekday_of_next?`), and the
working days are those from Monday to Friday.  `seek` steps from a day until it stands on one.  A
weekend is two days long, so that two tries find one, and it is the nearest:

    IsLeast    (Set.Ici d ∩ workingDays) (workingDayFrom d)     when a working day is not before d
    IsGreatest (Set.Iic d ∩ workingDays) (workingDayUpTo d)     when a working day is not after d
-/

namespace Rulebook

inductive Weekday where
  | monday
  | tuesday
  | wednesday
  | thursday
  | friday
  | saturday
  | sunday
deriving DecidableEq

namespace Weekday

def next : Weekday → Weekday
  | monday => tuesday
  | tuesday => wednesday
  | wednesday => thursday
  | thursday => friday
  | friday => saturday
  | saturday => sunday
  | sunday => monday

/-- The day of the week of a day with this number, by its rest modulo seven. -/
def ofRest : Nat → Weekday
  | 1 => monday
  | 2 => tuesday
  | 3 => wednesday
  | 4 => thursday
  | 5 => friday
  | 6 => saturday
  | _ => sunday

/-- Days from a day of the weekend to the Monday after it. -/
def toMonday : Weekday → Nat
  | saturday => 2
  | sunday => 1
  | _ => 0

/-- Days from the Friday before it to a day of the weekend. -/
def fromFriday : Weekday → Nat
  | saturday => 1
  | sunday => 2
  | _ => 0

theorem toMonday_le (w : Weekday) : w.toMonday ≤ 2 := by cases w <;> decide

theorem fromFriday_le (w : Weekday) : w.fromFriday ≤ 2 := by cases w <;> decide

theorem ofRest_succ : ∀ rest < 7, ofRest ((rest + 1) % 7) = (ofRest rest).next := by decide

theorem ofRest_ne_iff : ∀ rest < 7,
    ofRest rest ≠ saturday ∧ ofRest rest ≠ sunday ↔ 1 ≤ rest ∧ rest ≤ 5 := by
  decide

end Weekday

namespace Date

variable {d e s t : Date} {step : Date → Option Date}

/-! ## Days of the week -/

def weekday (d : Date) : Weekday := .ofRest (d.number % 7).toNat

example : (Date.mk 2024 6 1 (by decide)).weekday = .saturday := by decide

theorem weekday_of_number (h : e.number = d.number + 1) : e.weekday = d.weekday.next := by
  have hrest : (e.number % 7).toNat = ((d.number % 7).toNat + 1) % 7 := by omega
  rw [weekday, weekday, hrest, Weekday.ofRest_succ _ (by omega)]

theorem weekday_of_next? (h : d.next? = some e) : e.weekday = d.weekday.next :=
  weekday_of_number (number_of_next? h)

theorem weekday_of_previous? (h : d.previous? = some e) : d.weekday = e.weekday.next := by
  have hnumber := number_of_previous? h
  exact weekday_of_number (by omega)

/-- The days from Monday to Friday. -/
def workingDays : Set Date := {d | d.weekday ≠ .saturday ∧ d.weekday ≠ .sunday}

theorem mem_workingDays : d ∈ workingDays ↔ d.weekday ≠ .saturday ∧ d.weekday ≠ .sunday := Iff.rfl

theorem mem_workingDays_iff : d ∈ workingDays ↔ 1 ≤ d.number % 7 ∧ d.number % 7 ≤ 5 := by
  rw [mem_workingDays, weekday, Weekday.ofRest_ne_iff _ (by omega)]
  omega

theorem isWorkingDay_iff : d.isWorkingDay = true ↔ d ∈ workingDays := by
  rw [isWorkingDay, mem_workingDays_iff, Bool.and_eq_true, decide_eq_true_iff, decide_eq_true_iff]

theorem toMonday_of_next? (h : d.next? = some e) (hoff : d ∉ workingDays) :
    e.weekday.toMonday < d.weekday.toMonday := by
  rw [mem_workingDays] at hoff
  rw [weekday_of_next? h]
  revert hoff
  cases d.weekday <;> decide

theorem fromFriday_of_previous? (h : d.previous? = some e) (hoff : d ∉ workingDays) :
    e.weekday.fromFriday < d.weekday.fromFriday := by
  have hnext := weekday_of_previous? h
  rw [mem_workingDays, hnext] at hoff
  rw [hnext]
  revert hoff
  cases e.weekday <;> decide

/-! ## The search -/

/-- What each step off a day of the weekend keeps is kept by the search, and with as many tries as
there are days left it stops on a working day. -/
theorem seek_run (Kept : Date → Prop) (left : Date → Nat)
    (hstep : ∀ c, Kept c → c ∉ workingDays → ∃ e, step c = some e ∧ Kept e ∧ left e < left c) :
    ∀ tries d, Kept d → left d ≤ tries →
      Kept (seek step tries d) ∧ seek step tries d ∈ workingDays := by
  intro tries
  induction tries with
  | zero =>
    intro d hd hleft
    refine ⟨hd, ?_⟩
    by_contra hoff
    obtain ⟨e, -, -, hless⟩ := hstep d hd hoff
    omega
  | succ tries ih =>
    intro d hd hleft
    rw [seek]
    split
    · next hwork => exact ⟨hd, isWorkingDay_iff.1 hwork⟩
    · next hoff =>
      obtain ⟨e, he, hkept, hless⟩ := hstep d hd fun hwork => hoff (isWorkingDay_iff.2 hwork)
      rw [he]
      exact ih e hkept (by omega)

/-- Searching in the direction of `R`, a day at a time, finds the nearest working day. -/
theorem seek_nearest (R : Date → Date → Prop) (left : Date → Nat) {tries : Nat}
    (hrefl : ∀ c, R c c) (htrans : ∀ {a b c}, R a b → R b c → R a c)
    (hnear : ∀ c x, R c x → c ≠ x → ∃ e, step c = some e ∧ R c e ∧ R e x)
    (hleft : ∀ c e, step c = some e → c ∉ workingDays → left e < left c)
    (htries : left s ≤ tries) (hst : R s t) (ht : t ∈ workingDays) :
    seek step tries s ∈ {x | R s x} ∩ workingDays ∧
      ∀ x ∈ {x | R s x} ∩ workingDays, R (seek step tries s) x := by
  -- no working day that lies ahead of `s` is left behind
  let Kept (c : Date) : Prop := R s c ∧ ∀ x ∈ workingDays, R s x → R c x
  have hstep : ∀ c, Kept c → c ∉ workingDays → ∃ e, step c = some e ∧ Kept e ∧ left e < left c := by
    rintro c ⟨hsc, hahead⟩ hoff
    have hne : ∀ x ∈ workingDays, c ≠ x := fun x hx heq => hoff (heq ▸ hx)
    obtain ⟨e, he, hce, -⟩ := hnear c t (hahead t ht hst) (hne t ht)
    refine ⟨e, he, ⟨htrans hsc hce, fun x hx hsx => ?_⟩, hleft c e he hoff⟩
    obtain ⟨e', he', -, hex⟩ := hnear c x (hahead x hx hsx) (hne x hx)
    rw [he] at he'
    cases he'
    exact hex
  obtain ⟨⟨hs, hahead⟩, hwork⟩ :=
    seek_run Kept left hstep tries s ⟨hrefl s, fun x _ hsx => hsx⟩ htries
  exact ⟨⟨hs, hwork⟩, fun x ⟨hsx, hx⟩ => hahead x hx hsx⟩

/-- **The first working day not before `s`.** -/
theorem isLeast_workingDayFrom (hst : s ≤ t) (ht : t ∈ workingDays) :
    IsLeast (Set.Ici s ∩ workingDays) (workingDayFrom s) := by
  refine seek_nearest (· ≤ ·) (fun c => c.weekday.toMonday) le_refl le_trans
    (fun c x hcx hne => ?_) (fun c e => toMonday_of_next?) (Weekday.toMonday_le _) hst ht
  obtain ⟨e, he, hce, hex⟩ := exists_next?_le (lt_of_le_of_ne hcx hne)
  exact ⟨e, he, hce.le, hex⟩

/-- **The last working day not after `s`.** -/
theorem isGreatest_workingDayUpTo (hts : t ≤ s) (ht : t ∈ workingDays) :
    IsGreatest (Set.Iic s ∩ workingDays) (workingDayUpTo s) := by
  refine seek_nearest (· ≥ ·) (fun c => c.weekday.fromFriday) le_refl ge_trans
    (fun c x hcx hne => ?_) (fun c e => fromFriday_of_previous?) (Weekday.fromFriday_le _) hts ht
  obtain ⟨e, he, hec, hxe⟩ := exists_le_previous? (lt_of_le_of_ne hcx hne.symm)
  exact ⟨e, he, hec.le, hxe⟩

end Date

end Rulebook
