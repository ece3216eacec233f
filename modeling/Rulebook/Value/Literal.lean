import Rulebook.Value.Basic
import Rulebook.Date.Text
import Rulebook.Decimal.Read
import Rulebook.Text.Space

/-!
# Literals and views of values

A bare literal is the first of these that its trimmed text reads as: null, a whole number, a finite
decimal, a truth value, a date; failing all, it is the text.  The views read text by the same
grammars, so text that looks like a number is used as one.
-/

namespace Rulebook.Value

open Text

/-- The value written by a bare literal. -/
def literal (source : String) : Value :=
  let cs := trim source.toList
  let word := String.ofList cs
  if sameWord word "null" then .null
  else match int64? cs with
    | some n => .integer n
    | none => match Decimal.readFinite? cs with
      | some x => .decimal x
      | none =>
        if sameWord word "true" then .bool true
        else if sameWord word "false" then .bool false
        else match Date.read? cs with
          | some d => .date d
          | none => .text word

/-- The number a value stands for. -/
def asDecimal? : Value → Option Float
  | .integer n => some (Decimal.ofInt n.toInt)
  | .decimal x => some x
  | .text s => Decimal.readFinite? (trim s.toList)
  | _ => none

/-- The whole number a value stands for; decimals stand for none. -/
def asInteger? : Value → Option Int64
  | .integer n => some n
  | .text s => int64? (trim s.toList)
  | _ => none

/-- The date a value stands for. -/
def asDate? : Value → Option Date
  | .date d => some d
  | .text s => Date.read? (trim s.toList)
  | _ => none

/-- Whether a value counts as true. -/
def isTruthy : Value → Bool
  | .null => false
  | .bool b => b
  | .integer n => n != 0
  | .decimal x => x != 0
  | .text s =>
    let word := strip s
    !(word.isEmpty || sameWord word "false" || word == "0")
  | .date _ => true
  | .list items => !items.isEmpty
  | .object fields => !fields.isEmpty

end Rulebook.Value
