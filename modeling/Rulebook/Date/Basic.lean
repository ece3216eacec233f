/-!
# Dates

Days of the proleptic Gregorian calendar, from -262143-01-01 to +262142-12-31.  A `Date` carries the
proof that its day exists, so a day is built by `ofYmd?` and by stepping:

    ofYmd? y m d = none        unless year y has a month m with a day d
    next? / previous?          none at the two ends of the calendar
    d.number                   days counted from 0001-01-01, a Monday, which is day 1
-/

namespace Rulebook

namespace Date

def leastYear : Int := -262143

def greatestYear : Int := 262142

def isLeapYear (year : Int) : Bool := year % 4 == 0 && (year % 100 != 0 || year % 400 == 0)

/-- Length of a month; zero when there is no such month. -/
def monthLength (year : Int) : Nat → Nat
  | 1 | 3 | 5 | 7 | 8 | 10 | 12 => 31
  | 4 | 6 | 9 | 11 => 30
  | 2 => if isLeapYear year then 29 else 28
  | _ => 0

/-- The calendar has this day. -/
def Exists (year : Int) (month day : Nat) : Prop :=
  leastYear ≤ year ∧ year ≤ greatestYear ∧ 1 ≤ day ∧ day ≤ monthLength year month

instance (year : Int) (month day : Nat) : Decidable (Exists year month day) :=
  inferInstanceAs (Decidable (_ ∧ _ ∧ _ ∧ _))

end Date

/-- A day of the calendar. -/
structure Date where
  year : Int
  month : Nat
  day : Nat
  valid : Date.Exists year month day
deriving DecidableEq

namespace Date

def ofYmd? (year : Int) (month day : Nat) : Option Date :=
  if h : Exists year month day then some ⟨year, month, day, h⟩ else none

/-- The first day of the calendar. -/
def earliest : Date := ⟨leastYear, 1, 1, by decide⟩

/-- The last day of the calendar. -/
def latest : Date := ⟨greatestYear, 12, 31, by decide⟩

instance : Inhabited Date := ⟨earliest⟩

/-- Order of days: by year, then month, then day. -/
def order (a b : Date) : Ordering :=
  (compare a.year b.year).then ((compare a.month b.month).then (compare a.day b.day))

/-! ## Stepping -/

def next? (d : Date) : Option Date :=
  if d.day < monthLength d.year d.month then ofYmd? d.year d.month (d.day + 1)
  else if d.month < 12 then ofYmd? d.year (d.month + 1) 1
  else ofYmd? (d.year + 1) 1 1

def previous? (d : Date) : Option Date :=
  if 1 < d.day then ofYmd? d.year d.month (d.day - 1)
  else if 1 < d.month then ofYmd? d.year (d.month - 1) (monthLength d.year (d.month - 1))
  else ofYmd? (d.year - 1) 12 31

/-- Moves by months, back when `n` is negative; the day is at most the last of the new month. -/
def addMonths? (d : Date) (n : Int) : Option Date :=
  let index := d.year * 12 + (d.month - 1 : Nat) + n
  let year := index / 12
  let month := (index % 12).toNat + 1
  ofYmd? year month (min d.day (monthLength year month))

/-! ## Days of the week -/

def daysBeforeMonth (year : Int) : Nat → Nat
  | 0 | 1 => 0
  | m + 2 => daysBeforeMonth year (m + 1) + monthLength year (m + 1)

/-- Days counted from 0001-01-01, which is day 1. -/
def number (d : Date) : Int :=
  let y := d.year - 1
  365 * y + y / 4 - y / 100 + y / 400 + daysBeforeMonth d.year d.month + d.day

/-- Monday to Friday. -/
def isWorkingDay (d : Date) : Bool := 1 ≤ d.number % 7 && d.number % 7 ≤ 5

end Date

end Rulebook
