/-!
# Decimal numbers

A decimal is an IEEE 754 binary64 number.  A finite one is taken apart exactly, as

    ± mantissa · 2 ^ exponent                                     (`Parts`)

and the roundings to whole numbers, the conversions from and to integers, and the total order are
computed on natural numbers from these parts or from the bits.
-/

namespace Rulebook.Decimal

/-- A finite decimal, `± mantissa · 2 ^ exponent`. -/
structure Parts where
  negative : Bool
  mantissa : Nat
  exponent : Int
deriving DecidableEq, Repr

def exponentBits (x : Float) : Nat := x.toBits.toNat / 0x10000000000000 % 0x800

def isFinite (x : Float) : Bool := exponentBits x != 2047

def isNaN (x : Float) : Bool := !isFinite x && x.toBits.toNat % 0x10000000000000 != 0

def isNegative (x : Float) : Bool := 0x8000000000000000 ≤ x.toBits.toNat

/-- The parts of a finite decimal; the exponent of the subnormal numbers is -1074. -/
def parts (x : Float) : Parts :=
  let fraction := x.toBits.toNat % 0x10000000000000
  let e := exponentBits x
  if e = 0 then ⟨isNegative x, fraction, -1074⟩
  else ⟨isNegative x, fraction + 0x10000000000000, (e : Int) - 1075⟩

namespace Parts

/-- Whole part of the magnitude. -/
def whole (p : Parts) : Nat :=
  if 0 ≤ p.exponent then p.mantissa * Nat.pow 2 p.exponent.toNat
  else p.mantissa / Nat.pow 2 (-p.exponent).toNat

/-- Nothing follows the point. -/
def isWhole (p : Parts) : Bool :=
  0 ≤ p.exponent || p.mantissa % Nat.pow 2 (-p.exponent).toNat == 0

/-- The magnitude to the nearest whole number, a half away from zero. -/
def nearest (p : Parts) : Nat :=
  if 0 ≤ p.exponent then p.whole
  else (2 * p.mantissa + Nat.pow 2 (-p.exponent).toNat) / Nat.pow 2 ((-p.exponent).toNat + 1)

/-- The value cut toward zero. -/
def truncated (p : Parts) : Int := if p.negative then -(p.whole : Int) else p.whole

end Parts

/-! ## Whole numbers -/

/-- The decimal nearest to an integer, ties to even. -/
def ofInt (n : Int) : Float := Float.ofInt n

def ofNat (n : Nat) : Float := Float.ofNat n

/-- `n` with the sign of a decimal; a zero keeps it. -/
def signed (negative : Bool) (n : Nat) : Float := if negative then -(ofNat n) else ofNat n

/-- No fraction; infinities and NaN have one. -/
def isWhole (x : Float) : Bool := isFinite x && (parts x).isWhole

/-- Applies a rounding of magnitudes; decimals that are not finite, or have no bits after the point,
are kept. -/
def roundWith (round : Parts → Nat) (x : Float) : Float :=
  if isFinite x && (parts x).exponent < 0 then signed (parts x).negative (round (parts x)) else x

/-- Greatest whole number not above. -/
def floor (x : Float) : Float :=
  roundWith (fun p => if p.negative && !p.isWhole then p.whole + 1 else p.whole) x

/-- Least whole number not below. -/
def ceil (x : Float) : Float :=
  roundWith (fun p => if !p.negative && !p.isWhole then p.whole + 1 else p.whole) x

/-- Nearest whole number, a half away from zero. -/
def round (x : Float) : Float := roundWith Parts.nearest x

/-- The integer cut toward zero, held to the range `lo` to `hi`; zero for NaN. -/
def clampTo (lo hi : Int) (x : Float) : Int :=
  if isNaN x then 0
  else if isFinite x then max lo (min hi (parts x).truncated)
  else if isNegative x then lo else hi

def toInt64 (x : Float) : Int64 := Int64.ofInt (clampTo (-0x8000000000000000) 0x7FFFFFFFFFFFFFFF x)

/-- A count of things to keep. -/
def toCount (x : Float) : Nat := (clampTo 0 0xFFFFFFFFFFFFFFFF x).toNat

/-! ## Order -/

/-- Place in the total order of decimals: by value, and minus zero before zero. -/
def rank (x : Float) : Int :=
  let bits := x.toBits.toNat
  if bits < 0x8000000000000000 then bits else 0x7FFFFFFFFFFFFFFF - (bits : Int)

/-- The total order of decimals. -/
def order (a b : Float) : Ordering := compare (rank a) (rank b)

/-- The greater of two, or the one that is a number. -/
def larger (a b : Float) : Float :=
  if isNaN a then b else if isNaN b then a else if a < b then b else a

/-! ## Powers of ten -/

/-- `acc · base ^ n` by repeated squaring. -/
def powerFrom (acc base : Float) (n : Nat) : Float :=
  if h : n = 0 then acc
  else powerFrom (if n % 2 = 1 then acc * base else acc) (base * base) (n / 2)
termination_by n
decreasing_by exact Nat.div_lt_self (Nat.pos_of_ne_zero h) (by decide)

/-- `10 ^ n`, exact up to `n = 22`. -/
def tenTo (n : Nat) : Float := powerFrom 1 10 n

end Rulebook.Decimal
