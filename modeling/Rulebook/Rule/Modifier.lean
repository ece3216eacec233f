import Rulebook.Value.Basic

/-!
# Modifiers

What stands behind the bars of a bracket: a code with typed arguments.  Each code has a place in the
fixed order of application (`rank`) and a bit in a set of active modifiers (`flag`).
-/

namespace Rulebook

/-- A set of active modifiers, one bit for each code. -/
structure ModifierFlags where
  bits : BitVec 16
deriving DecidableEq, Repr

namespace ModifierFlags

def none : ModifierFlags := ⟨0⟩

def union (s t : ModifierFlags) : ModifierFlags := ⟨s.bits ||| t.bits⟩

/-- Whether all of `t` is in `s`. -/
def contains (s t : ModifierFlags) : Bool := s.bits &&& t.bits == t.bits

end ModifierFlags

/-- The codes of modifiers, in the order of application. -/
inductive ModifierCode where
  | upper | lower | ignoreCase | max | min | email | oneOf | inTable | required
  | roundUp | roundDown | between
deriving DecidableEq, Repr

namespace ModifierCode

def all : List ModifierCode :=
  [.upper, .lower, .ignoreCase, .max, .min, .email, .oneOf, .inTable, .required,
    .roundUp, .roundDown, .between]

def text : ModifierCode → String
  | .upper => "u"
  | .lower => "l"
  | .ignoreCase => "i"
  | .max => "mx"
  | .min => "mn"
  | .email => "e"
  | .oneOf => "in"
  | .inTable => "indb"
  | .required => "r"
  | .roundUp => "ru"
  | .roundDown => "rd"
  | .between => "b"

def ofText? (s : String) : Option ModifierCode := all.find? (·.text == s)

/-- Place in the order of application. -/
def rank : ModifierCode → Nat
  | .upper => 0
  | .lower => 1
  | .ignoreCase => 2
  | .max => 3
  | .min => 4
  | .email => 5
  | .oneOf => 6
  | .inTable => 7
  | .required => 8
  | .roundUp => 9
  | .roundDown => 10
  | .between => 11

/-- The set of this code alone. -/
def flag : ModifierCode → ModifierFlags
  | .upper => ⟨0x001⟩
  | .lower => ⟨0x002⟩
  | .ignoreCase => ⟨0x004⟩
  | .max => ⟨0x008⟩
  | .min => ⟨0x010⟩
  | .required => ⟨0x020⟩
  | .email => ⟨0x040⟩
  | .oneOf => ⟨0x080⟩
  | .inTable => ⟨0x100⟩
  | .roundUp => ⟨0x200⟩
  | .roundDown => ⟨0x400⟩
  | .between => ⟨0x800⟩

end ModifierCode

/-- Member of a list of alternatives. -/
inductive Member where
  /-- The value itself equals `v`. -/
  | value (v : Value)
  /-- The field `column` of an object equals `v`. -/
  | field (column : String) (v : Value)

/-- A column of a table. -/
structure Column where
  table : String
  column : String
deriving DecidableEq, Repr

def Column.text (c : Column) : String := c.table ++ "." ++ c.column

inductive Modifier where
  | upper
  | lower
  | ignoreCase
  | max (limit : Float)
  | min (limit : Float)
  | email
  | oneOf (members : List Member)
  | inTable (columns : List Column)
  | required
  | roundUp (digits : Nat)
  | roundDown (digits : Nat)
  | between (low high : Value)

namespace Modifier

def code : Modifier → ModifierCode
  | .upper => .upper
  | .lower => .lower
  | .ignoreCase => .ignoreCase
  | .max _ => .max
  | .min _ => .min
  | .email => .email
  | .oneOf _ => .oneOf
  | .inTable _ => .inTable
  | .required => .required
  | .roundUp _ => .roundUp
  | .roundDown _ => .roundDown
  | .between _ _ => .between

def flag (m : Modifier) : ModifierFlags := m.code.flag

end Modifier

end Rulebook
