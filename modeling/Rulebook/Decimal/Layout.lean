import Rulebook.Decimal.Shortest

/-!
# How decimals are written

A `Layout` holds the decisions of one written form, and `Layout.write` lays out the shortest digits
by it.  There are two forms: `plain`, for messages and texts, which never uses an exponent, and
`json`.
-/

namespace Rulebook.Decimal

/-- The decisions of one written form.  The exponent of a decimal is that of its first digit. -/
structure Layout where
  tie : Tie
  /-- Decimal exponents outside these bounds are written with a mark. -/
  positional : Option (Int × Int)
  /-- What follows a whole number. -/
  wholeSuffix : String
  /-- The mark before a positive exponent. -/
  positiveMark : String
  negativeMark : String
  infinity : String
  minusInfinity : String
  nan : String

/-- Digits without an exponent, whatever the size. -/
def plain : Layout where
  tie := .up
  positional := none
  wholeSuffix := ""
  positiveMark := "e"
  negativeMark := "e-"
  infinity := "inf"
  minusInfinity := "-inf"
  nan := "NaN"

/-- JSON numbers keep `.0`, and have an exponent below -5 and above 15; NaN and infinity are
null. -/
def json : Layout where
  tie := .even
  positional := some (-5, 15)
  wholeSuffix := ".0"
  positiveMark := "e+"
  negativeMark := "e-"
  infinity := "null"
  minusInfinity := "null"
  nan := "null"

/-- The digits `ds · 10 ^ u` in positional notation. -/
def positionalText (suffix : List Char) (ds : List Char) (u : Int) : List Char :=
  if 0 ≤ u then ds ++ List.replicate u.toNat '0' ++ suffix
  else
    let places := (-u).toNat
    if places < ds.length then
      ds.take (ds.length - places) ++ '.' :: ds.drop (ds.length - places)
    else '0' :: '.' :: List.replicate (places - ds.length) '0' ++ ds

/-- One digit, a point before the others, and the exponent of the first digit. -/
def Layout.exponentText (l : Layout) (ds : List Char) (e : Int) : List Char :=
  let mark := if e < 0 then l.negativeMark else l.positiveMark
  (match ds with
    | [] => []
    | [d] => [d]
    | d :: rest => d :: '.' :: rest) ++ mark.toList ++ Text.writeNatural e.natAbs

def Layout.magnitude (l : Layout) (p : Parts) : List Char :=
  if p.mantissa = 0 then '0' :: l.wholeSuffix.toList
  else
    let (n, u) := p.shortest l.tie
    let ds := Text.writeNatural n
    let e := u + ds.length - 1
    match l.positional with
    | some (lo, hi) =>
      if lo ≤ e ∧ e ≤ hi then positionalText l.wholeSuffix.toList ds u else l.exponentText ds e
    | none => positionalText l.wholeSuffix.toList ds u

def Layout.write (l : Layout) (x : Float) : String :=
  if isFinite x then
    let p := parts x
    String.ofList (if p.negative then '-' :: l.magnitude p else l.magnitude p)
  else if isNaN x then l.nan
  else if isNegative x then l.minusInfinity
  else l.infinity

end Rulebook.Decimal
