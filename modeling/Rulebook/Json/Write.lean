import Rulebook.Json.Basic
import Rulebook.Decimal.Layout
import Rulebook.Text.Split

/-!
# Writing JSON

Two layouts: `compact`, without blanks, and `pretty`, one item a line and two blanks a level.
Quotes, backslashes and control characters are escaped, and no other character is.
-/

namespace Rulebook.Json

def hexDigit (n : Nat) : Char := Nat.digitChar n

def escapeChar (c : Char) : List Char :=
  if c = '"' then ['\\', '"']
  else if c = '\\' then ['\\', '\\']
  else if c = '\x08' then ['\\', 'b']
  else if c = '\x0c' then ['\\', 'f']
  else if c = '\n' then ['\\', 'n']
  else if c = '\r' then ['\\', 'r']
  else if c = '\t' then ['\\', 't']
  else if c.toNat < 0x20 then
    ['\\', 'u', '0', '0', hexDigit (c.toNat / 16), hexDigit (c.toNat % 16)]
  else [c]

def quote (s : String) : String :=
  "\"" ++ String.ofList (s.toList.flatMap escapeChar) ++ "\""

def writeInteger (n : Int) : String := String.ofList (Text.writeInteger n)

mutual

def compact : Json → String
  | .null => "null"
  | .bool b => if b then "true" else "false"
  | .integer n => writeInteger n
  | .decimal x => Decimal.json.write x
  | .string s => quote s
  | .array items => "[" ++ Text.join "," (compactItems items) ++ "]"
  | .object members => "\x7b" ++ Text.join "," (compactMembers members) ++ "\x7d"

def compactItems : List Json → List String
  | [] => []
  | j :: js => compact j :: compactItems js

def compactMembers : List (String × Json) → List String
  | [] => []
  | (k, j) :: ms => (quote k ++ ":" ++ compact j) :: compactMembers ms

end

/-- A line break and the indentation of a level. -/
def newLine (level : Nat) : String := "\n" ++ String.ofList (List.replicate (2 * level) ' ')

/-- Parts one a line between brackets; nothing between them when there are none. -/
def block (opening closing : String) (level : Nat) (parts : List String) : String :=
  if parts.isEmpty then opening ++ closing
  else
    opening ++ newLine (level + 1) ++ Text.join ("," ++ newLine (level + 1)) parts ++
      newLine level ++ closing

mutual

def prettyAt (level : Nat) : Json → String
  | .null => "null"
  | .bool b => if b then "true" else "false"
  | .integer n => writeInteger n
  | .decimal x => Decimal.json.write x
  | .string s => quote s
  | .array items => block "[" "]" level (prettyItems level items)
  | .object members => block "\x7b" "\x7d" level (prettyMembers level members)

def prettyItems (level : Nat) : List Json → List String
  | [] => []
  | j :: js => prettyAt (level + 1) j :: prettyItems level js

def prettyMembers (level : Nat) : List (String × Json) → List String
  | [] => []
  | (k, j) :: ms => (quote k ++ ": " ++ prettyAt (level + 1) j) :: prettyMembers level ms

end

def pretty (j : Json) : String := prettyAt 0 j

end Rulebook.Json
