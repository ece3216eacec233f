import Rulebook.Value.Literal
import Rulebook.Value.Text

/-!
# Loose comparison

Values of different kinds are compared by the first of these that both have: a whole number, a
number, a date, a truth value; failing all, by their texts, where null is empty.  Texts are ordered
by code points, with or without regard to letter case.

    compareLoose ci a b        less, equal or greater
-/

namespace Rulebook.Value

/-- Order of two texts, by code points. -/
def compareText (ci : Bool) (a b : String) : Ordering :=
  if ci then compare (Text.lower a) (Text.lower b) else compare a b

/-- The comparison by whole numbers, numbers, dates or truth values, if both sides have them. -/
def compareTyped? (a b : Value) : Option Ordering :=
  match a.asInteger?, b.asInteger? with
  | some i, some j => some (compare i j)
  | _, _ => match a.asDecimal?, b.asDecimal? with
    | some x, some y => some (Decimal.order x y)
    | _, _ => match a.asDate?, b.asDate? with
      | some d, some e => some (d.order e)
      | _, _ => match a, b with
        | .bool p, .bool q => some (compare p q)
        | _, _ => none

/-- Comparison across kinds. -/
def compareLoose (ci : Bool) (a b : Value) : Ordering :=
  if a.isNull && b.isNull then .eq
  else (compareTyped? a b).getD (compareText ci a.toText b.toText)

def equalLoose (ci : Bool) (a b : Value) : Bool := compareLoose ci a b == .eq

end Rulebook.Value
