import Rulebook.Decimal.Basic
import Rulebook.Text.Numeral

/-!
# The fewest digits that read back

The reals that round to a positive decimal `m · 2 ^ q` form an interval, from halfway to the
neighbour below to halfway to the neighbour above, ends included when `m` is even.  For 1, 2, …
digits the two neighbours of the value on that decimal grid are tried; the first grid with one
inside the interval gives the digits, and of two the nearer is taken; a `Tie` decides between two
equally near.

    p.shortest tie = (d, u)        the text of the value is d · 10 ^ u, and d has no trailing zero
-/

namespace Rulebook.Decimal

/-- Which of two equally near neighbours is written. -/
inductive Tie where
  | up
  | even
deriving DecidableEq, Repr

/-- A value with the interval that rounds to it, over one denominator. -/
structure Interval where
  low : Nat
  value : Nat
  high : Nat
  denominator : Nat
  closed : Bool

/-- The interval of `m · 2 ^ q`.  Below a power of two the gap is half as wide, except at the least
exponent. -/
def Parts.interval (p : Parts) : Interval :=
  let below := if p.mantissa = 0x10000000000000 ∧ -1074 < p.exponent then 1 else 2
  let e := p.exponent - 2
  let up := Nat.pow 2 e.toNat
  { low := (4 * p.mantissa - below) * up
    value := 4 * p.mantissa * up
    high := (4 * p.mantissa + 2) * up
    denominator := Nat.pow 2 (-e).toNat
    closed := p.mantissa % 2 == 0 }

namespace Interval

/-- Whether `n / d`, for a value scaled by `s`, lies inside. -/
def holds (i : Interval) (s n d : Nat) : Bool :=
  if i.closed then i.low * s ≤ n * d && n * d ≤ i.high * s
  else i.low * s < n * d && n * d < i.high * s

/-- The digits on the grid of `10 ^ u`, if one of the two neighbours of the value is inside. -/
def onGrid (i : Interval) (tie : Tie) (u : Int) : Option Nat :=
  let s := Nat.pow 10 (-u).toNat
  let d := i.denominator * Nat.pow 10 u.toNat
  let n := i.value * s / d
  let below := i.holds s n d
  let above := i.holds s (n + 1) d
  if below && above then
    match compare (2 * (i.value * s)) ((2 * n + 1) * d), tie with
    | .lt, _ => some n
    | .gt, _ => some (n + 1)
    | .eq, .up => some (n + 1)
    | .eq, .even => some (if n % 2 = 0 then n else n + 1)
  else if below then some n
  else if above then some (n + 1)
  else none

/-- Tries the grids `10 ^ u`, `10 ^ (u - 1)`, …. -/
def search (i : Interval) (tie : Tie) : Nat → Int → Nat × Int
  | 0, u => (i.value * Nat.pow 10 (-u).toNat / (i.denominator * Nat.pow 10 u.toNat), u)
  | tries + 1, u =>
    match i.onGrid tie u with
    | some n => (n, u)
    | none => search i tie tries (u - 1)

/-- An exponent `u` with the value below `10 ^ (u + 1)`. -/
def topExponent (i : Interval) : Int :=
  if i.denominator ≤ i.value then (Text.writeNatural (i.value / i.denominator)).length - 1
  else 1 - ((Text.writeNatural (i.denominator / i.value)).length : Int)

end Interval

/-- Moves trailing zeros of the digits into the exponent. -/
def dropZeros : Nat → Nat → Int → Nat × Int
  | 0, n, u => (n, u)
  | k + 1, n, u => if n % 10 = 0 then dropZeros k (n / 10) (u + 1) else (n, u)

/-- Digits and decimal exponent of a positive value. -/
def Parts.shortest (p : Parts) (tie : Tie) : Nat × Int :=
  let i := p.interval
  let (n, u) := i.search tie 18 i.topExponent
  dropZeros 18 n u

end Rulebook.Decimal
