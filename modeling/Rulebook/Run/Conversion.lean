import Rulebook.Value.Literal
import Rulebook.Value.Text

/-!
# Conversions of values

`Value.convert word v` is `v` as another kind, if it can be one.  Null stays null under every
conversion.
-/

namespace Rulebook

/-- What a value can be converted to. -/
inductive Conversion where
  | text
  | integer
  | decimal
  | bool
  | date
deriving DecidableEq, Repr

def Conversion.ofWord? : String → Option Conversion
  | "text" | "string" => some .text
  | "integer" | "int" => some .integer
  | "decimal" | "number" => some .decimal
  | "bool" | "boolean" => some .bool
  | "date" => some .date
  | _ => none

namespace Value

def toInteger? : Value → Option Value
  | .integer n => some (.integer n)
  | .bool b => some (.integer (if b then 1 else 0))
  | v => (v.asDecimal?.filter Decimal.isWhole).map fun x => .integer (Decimal.toInt64 x)

def toBool? : Value → Option Value
  | .bool b => some (.bool b)
  | .integer n => some (.bool (n != 0))
  | .text s =>
    if Text.sameWord s "true" then some (.bool true)
    else if Text.sameWord s "false" then some (.bool false)
    else none
  | _ => none

/-- The value as another kind. -/
def convert (c : Conversion) (v : Value) : Option Value :=
  if v.isNull then some .null
  else match c with
    | .text => some (.text v.toText)
    | .integer => v.toInteger?
    | .decimal => v.asDecimal?.map .decimal
    | .bool => v.toBool?
    | .date => v.asDate?.map .date

end Value

end Rulebook
