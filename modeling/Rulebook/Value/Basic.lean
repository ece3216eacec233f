import Rulebook.Date.Basic
import Rulebook.Json.Basic

/-!
# Values

A value is what rules test and actions change.  Its kinds are those of JSON, with whole numbers kept
apart from decimals, and dates.  The fields of an object are in the order of their names.

`Value.same` is equality: of equal kind and content, decimals by the comparison of numbers.
-/

namespace Rulebook

/-- A dynamic value. -/
inductive Value where
  | null
  | bool (b : Bool)
  | integer (n : Int64)
  | decimal (x : Float)
  | text (s : String)
  | date (d : Date)
  | list (items : List Value)
  | object (fields : List (String × Value))
deriving Inhabited

/-- What a value is. -/
inductive Kind where
  | null
  | bool
  | integer
  | decimal
  | text
  | date
  | list
  | object
deriving DecidableEq, Repr

def Kind.name : Kind → String
  | .null => "null"
  | .bool => "bool"
  | .integer => "integer"
  | .decimal => "decimal"
  | .text => "text"
  | .date => "date"
  | .list => "list"
  | .object => "object"

namespace Value

def kind : Value → Kind
  | .null => .null
  | .bool _ => .bool
  | .integer _ => .integer
  | .decimal _ => .decimal
  | .text _ => .text
  | .date _ => .date
  | .list _ => .list
  | .object _ => .object

def isNull : Value → Bool
  | .null => true
  | _ => false

def isNumber : Value → Bool
  | .integer _ | .decimal _ => true
  | _ => false

def asText? : Value → Option String
  | .text s => some s
  | _ => none

mutual

/-- Equality of values. -/
def same : Value → Value → Bool
  | .null, .null => true
  | .bool a, .bool b => a == b
  | .integer a, .integer b => a == b
  | .decimal a, .decimal b => a == b
  | .text a, .text b => a == b
  | .date a, .date b => a == b
  | .list a, .list b => sameItems a b
  | .object a, .object b => sameFields a b
  | _, _ => false

def sameItems : List Value → List Value → Bool
  | [], [] => true
  | a :: as, b :: bs => same a b && sameItems as bs
  | _, _ => false

def sameFields : List (String × Value) → List (String × Value) → Bool
  | [], [] => true
  | (j, a) :: as, (k, b) :: bs => j == k && same a b && sameFields as bs
  | _, _ => false

end

end Value

end Rulebook
