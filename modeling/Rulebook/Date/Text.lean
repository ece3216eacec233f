import Rulebook.Date.Basic
import Rulebook.Text.Numeral
import Rulebook.Text.Space

/-!
# Dates as text

Written form: year, month and day joined by hyphens.  Years from 0 to 9999 have four digits, the
others a sign and at least four.  Reading is wider: white space may stand before each number, a year
without a sign has one to four digits, a month and a day have one or two, and nothing may follow.
-/

namespace Rulebook.Date

open Text

def writeYear (year : Int) : List Char :=
  if 0 ≤ year ∧ year ≤ 9999 then padNatural 4 year.toNat
  else (if year < 0 then '-' else '+') :: padNatural 4 year.natAbs

def write (d : Date) : String :=
  String.ofList (writeYear d.year ++ '-' :: padNatural 2 d.month ++ '-' :: padNatural 2 d.day)

/-- The leading digits, at most `most` of them and at least one. -/
def leadingNumber? (most : Nat) (cs : List Char) : Option (Nat × List Char) :=
  let ds := (cs.take most).takeWhile isDigit
  if ds = [] then none else some (digitsValue 0 ds, cs.drop ds.length)

def readYear? (cs : List Char) : Option (Int × List Char) :=
  match trimStart cs with
  | '-' :: r => (leadingNumber? r.length r).map fun (n, r') => (-(n : Int), r')
  | '+' :: r => (leadingNumber? r.length r).map fun (n, r') => ((n : Int), r')
  | r => (leadingNumber? 4 r).map fun (n, r') => ((n : Int), r')

/-- A hyphen, and then a number of one or two digits. -/
def readPart? : List Char → Option (Nat × List Char)
  | '-' :: r => leadingNumber? 2 (trimStart r)
  | _ => none

def read? (cs : List Char) : Option Date := do
  let (year, r) ← readYear? cs
  let (month, r) ← readPart? r
  let (day, r) ← readPart? r
  if r = [] then ofYmd? year month day else none

end Rulebook.Date
