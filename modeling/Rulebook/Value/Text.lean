import Rulebook.Value.Basic
import Rulebook.Date.Text
import Rulebook.Decimal.Layout
import Rulebook.Text.Split

/-!
# Values as text

`display` writes any value; `toText` is the same but for null, which has no text.

    [1, a, null]        a list
    \x7ba: 1, b: x\x7d        an object
-/

namespace Rulebook.Value

def writeInteger (n : Int64) : String := String.ofList (Text.writeInteger n.toInt)

mutual

/-- The value as shown in messages. -/
def display : Value → String
  | .null => "null"
  | .bool b => if b then "true" else "false"
  | .integer n => writeInteger n
  | .decimal x => Decimal.plain.write x
  | .text s => s
  | .date d => d.write
  | .list items => "[" ++ Text.join ", " (displayItems items) ++ "]"
  | .object fields => "\x7b" ++ Text.join ", " (displayFields fields) ++ "\x7d"

def displayItems : List Value → List String
  | [] => []
  | v :: vs => display v :: displayItems vs

def displayFields : List (String × Value) → List String
  | [] => []
  | (k, v) :: fs => (k ++ ": " ++ display v) :: displayFields fs

end

/-- The text that comparisons and diagnostics use. -/
def toText : Value → String
  | .null => ""
  | v => display v

/-- Number of items, fields or characters. -/
def size : Value → Nat
  | .null => 0
  | .list items => items.length
  | .object fields => fields.length
  | v => v.toText.length

end Rulebook.Value
