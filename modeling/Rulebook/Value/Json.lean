import Rulebook.Value.Basic
import Rulebook.Date.Text
import Rulebook.Decimal.Basic

/-!
# Values and JSON

A JSON string that reads as a date is a date, and a whole number beyond 64 bits a decimal.  In the
other direction dates become strings, and decimals that are not finite become null.
-/

namespace Rulebook.Value

mutual

def ofJson : Json → Value
  | .null => .null
  | .bool b => .bool b
  | .integer n => match Text.fitInt64 n with
    | some i => .integer i
    | none => .decimal (Decimal.ofInt n)
  | .decimal x => .decimal x
  | .string s => match Date.read? s.toList with
    | some d => .date d
    | none => .text s
  | .array items => .list (ofItems items)
  | .object members => .object (ofMembers members)

def ofItems : List Json → List Value
  | [] => []
  | j :: js => ofJson j :: ofItems js

def ofMembers : List (String × Json) → List (String × Value)
  | [] => []
  | (k, j) :: ms => (k, ofJson j) :: ofMembers ms

end

mutual

def toJson : Value → Json
  | .null => .null
  | .bool b => .bool b
  | .integer n => .integer n.toInt
  | .decimal x => if Decimal.isFinite x then .decimal x else .null
  | .text s => .string s
  | .date d => .string d.write
  | .list items => .array (toItems items)
  | .object fields => .object (toMembers fields)

def toItems : List Value → List Json
  | [] => []
  | v :: vs => toJson v :: toItems vs

def toMembers : List (String × Value) → List (String × Json)
  | [] => []
  | (k, v) :: fs => (k, toJson v) :: toMembers fs

end

end Rulebook.Value
