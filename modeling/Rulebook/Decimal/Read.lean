import Rulebook.Decimal.Basic
import Rulebook.Text.Numeral

/-!
# Reading decimals

The grammar: an optional sign, then `inf`, `infinity` or `nan` in any case, or digits with at most
one point and at least one digit, and an optional exponent

    decimal := ['+' | '-'] (word | digits* ['.' digits*] [('e' | 'E') ['+' | '-'] digits+])

The value is the nearest decimal, ties to even.
-/

namespace Rulebook.Decimal

/-- The decimal nearest to `n · 10 ^ e`.  Beyond the bounds the answer is infinity or zero, and no
power is computed. -/
def nearest (n : Nat) (e : Int) : Float :=
  if n = 0 then 0
  else if 310 < e then Float.ofBits 0x7FF0000000000000
  else if e < -400 ∧ e + (Text.writeNatural n).length < -330 then 0
  else Float.ofScientific n (e < 0) e.natAbs

/-- The exponent part, when the text ends there. -/
def exponent? : List Char → Option Int
  | [] => some 0
  | c :: cs => if c = 'e' ∨ c = 'E' then
      match cs with
      | '+' :: ds => (Text.digits? ds).map fun n => (n : Int)
      | '-' :: ds => (Text.digits? ds).map fun n => -(n : Int)
      | ds => (Text.digits? ds).map fun n => (n : Int)
    else none

/-- Digits, point, digits, exponent. -/
def number? (cs : List Char) : Option Float :=
  let whole := cs.takeWhile Text.isDigit
  let (fraction, rest) := match cs.dropWhile Text.isDigit with
    | '.' :: r => (r.takeWhile Text.isDigit, r.dropWhile Text.isDigit)
    | r => ([], r)
  if whole = [] ∧ fraction = [] then none
  else (exponent? rest).map fun e =>
    nearest (Text.digitsValue 0 (whole ++ fraction)) (e - fraction.length)

/-- An infinity or NaN, or a number. -/
def magnitude? (cs : List Char) : Option Float :=
  match String.ofList (cs.map Char.toLower) with
  | "inf" | "infinity" => some (Float.ofBits 0x7FF0000000000000)
  | "nan" => some (Float.ofBits 0x7FF8000000000000)
  | _ => number? cs

def read? : List Char → Option Float
  | '+' :: cs => magnitude? cs
  | '-' :: cs => (magnitude? cs).map fun x => -x
  | cs => magnitude? cs

/-- The decimal written by a text, when it is finite. -/
def readFinite? (cs : List Char) : Option Float := (read? cs).filter isFinite

end Rulebook.Decimal
