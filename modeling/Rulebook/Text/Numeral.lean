import Rulebook.Text.Case

/-!
# Decimal numerals of whole numbers

Reading takes an optional sign and at least one ASCII digit, and nothing else; writing puts a minus
sign before the digits of a negative number.
-/

namespace Rulebook.Text

def digitValue (c : Char) : Nat := c.toNat - '0'.toNat

/-- The number written by `cs` after the digits of `acc`. -/
def digitsValue (acc : Nat) : List Char → Nat
  | [] => acc
  | c :: cs => digitsValue (10 * acc + digitValue c) cs

/-- At least one digit, and digits only. -/
def digits? (cs : List Char) : Option Nat :=
  if cs ≠ [] ∧ cs.all isDigit then some (digitsValue 0 cs) else none

/-- A natural number, with an optional plus sign. -/
def natural? : List Char → Option Nat
  | '+' :: cs => digits? cs
  | cs => digits? cs

/-- A whole number, with an optional sign. -/
def integer? : List Char → Option Int
  | '-' :: cs => (digits? cs).map fun n => -(n : Int)
  | cs => (natural? cs).map fun n => (n : Int)

/-- The value of a hexadecimal digit, in either case. -/
def hexValue? (c : Char) : Option Nat :=
  if isDigit c then some (digitValue c)
  else if 'a' ≤ c ∧ c ≤ 'f' then some (c.toNat - 'a'.toNat + 10)
  else if 'A' ≤ c ∧ c ≤ 'F' then some (c.toNat - 'A'.toNat + 10)
  else none

/-- The number that digits to a base of at most sixteen write. -/
def baseDigits? (base : Nat) (cs : List Char) : Option Nat :=
  if cs = [] then none
  else cs.foldlM (fun n c => ((hexValue? c).filter (· < base)).map (base * n + ·)) 0

/-- The number as a 64-bit integer, unless it is out of range. -/
def fitInt64 (n : Int) : Option Int64 :=
  if -0x8000000000000000 ≤ n ∧ n < 0x8000000000000000 then some (Int64.ofInt n) else none

def int64? (cs : List Char) : Option Int64 := (integer? cs).bind fitInt64

def writeNatural (n : Nat) : List Char := Nat.toDigits 10 n

def writeInteger : Int → List Char
  | .ofNat n => writeNatural n
  | .negSucc n => '-' :: writeNatural (n + 1)

/-- The digits of `n` after zeros, at least `width` characters in all. -/
def padNatural (width n : Nat) : List Char :=
  let ds := writeNatural n
  List.replicate (width - ds.length) '0' ++ ds

/-- The numeral of a count, for messages. -/
def showNatural (n : Nat) : String := String.ofList (writeNatural n)

end Rulebook.Text
