import Rulebook.Json.Basic

/-!
# Documents

The common form of what definition files are read into, whatever they are written in.  An unquoted
word means what its field asks for, so it is kept as it is written; all other scalars have a meaning
of their own.
-/

namespace Rulebook

inductive Document where
  /-- An unquoted word: a text, a number or nothing, as the field asks. -/
  | word (s : String)
  | text (s : String)
  | integer (n : Int)
  | null
  /-- A scalar that no field takes. -/
  | other
  /-- Items in order; `positional` items may also be the fields of a record. -/
  | list (positional : Bool) (items : List Document)
  | record (entries : List (String × Document))
deriving Inhabited

namespace Document

mutual

/-- Arrays may list the fields of a record by position. -/
def ofJson : Json → Document
  | .null => .null
  | .bool _ => .other
  | .integer n => .integer n
  | .decimal _ => .other
  | .string s => .text s
  | .array items => .list true (ofItems items)
  | .object members => .record (ofMembers members)

def ofItems : List Json → List Document
  | [] => []
  | j :: js => ofJson j :: ofItems js

def ofMembers : List (String × Json) → List (String × Document)
  | [] => []
  | (k, j) :: ms => (k, ofJson j) :: ofMembers ms

end

end Document

end Rulebook
