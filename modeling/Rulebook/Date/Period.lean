import Rulebook.Date.Basic

/-!
# Months, quarters and fiscal years

Ends of the periods that hold a day, and the first and last working days in them.  A fiscal year
ends with the last day of month `m`.  Working days are Monday to Friday.

At the limits of the calendar a date that does not exist is replaced: the first day of a month
outside the calendar by the first day of all, the last day of the last month by its first.
-/

namespace Rulebook.Date

def firstOfMonth (year : Int) (month : Nat) : Date := (ofYmd? year month 1).getD earliest

def lastOfMonth (year : Int) (month : Nat) : Date :=
  let first := firstOfMonth year month
  ((first.addMonths? 1).bind previous?).getD first

/-- First month of the quarter. -/
def quarterMonth (d : Date) : Nat := (d.month - 1) / 3 * 3 + 1

/-- Calendar year in which the fiscal year of `d` ends. -/
def fiscalYear (d : Date) (m : Nat) : Int := if d.month ≤ m then d.year else d.year + 1

def endOfMonth (d : Date) : Date := lastOfMonth d.year d.month

def endOfQuarter (d : Date) : Date := lastOfMonth d.year (quarterMonth d + 2)

def endOfFiscalYear (d : Date) (m : Nat) : Date := lastOfMonth (fiscalYear d m) m

/-- The first day of the month that follows the day twelve months before the end. -/
def startOfFiscalYear (d : Date) (m : Nat) : Date :=
  let last := endOfFiscalYear d m
  match (last.addMonths? (-12)).bind next? with
  | some e => firstOfMonth e.year e.month
  | none => last

/-! ## Working days -/

/-- Steps from `d` until a working day, at most `tries` times, or to the end of the calendar. -/
def seek (step : Date → Option Date) : Nat → Date → Date
  | 0, d => d
  | tries + 1, d =>
    if d.isWorkingDay then d
    else match step d with
      | some e => seek step tries e
      | none => d

/-- The first working day not before `d`; a weekend is two days long. -/
def workingDayFrom (d : Date) : Date := seek next? 2 d

/-- The last working day not after `d`. -/
def workingDayUpTo (d : Date) : Date := seek previous? 2 d

def firstWorkingDayOfMonth (d : Date) : Date := workingDayFrom (firstOfMonth d.year d.month)

def firstWorkingDayOfQuarter (d : Date) : Date :=
  workingDayFrom (firstOfMonth d.year (quarterMonth d))

def firstWorkingDayOfFiscalYear (d : Date) (m : Nat) : Date :=
  workingDayFrom (startOfFiscalYear d m)

def lastWorkingDayOfMonth (d : Date) : Date := workingDayUpTo (endOfMonth d)

def lastWorkingDayOfQuarter (d : Date) : Date := workingDayUpTo (endOfQuarter d)

def lastWorkingDayOfFiscalYear (d : Date) (m : Nat) : Date := workingDayUpTo (endOfFiscalYear d m)

end Rulebook.Date
