import Rulebook.Rule.Modifier
import Rulebook.Text.Bytes

/-!
# Rules

A rule is a bracket, which compares a value with a target and applies modifiers to it, or a node,
which combines groups of rules.  Every part keeps the source text it was read from and its byte
span.
-/

namespace Rulebook

/-- A range of bytes in a source text. -/
structure Span where
  start : Nat
  stop : Nat
deriving DecidableEq, Repr, Inhabited

/-- Comparison of a value with a target. -/
inductive Operand where
  | equal
  | greater
  | less
  | greaterOrEqual
  | lessOrEqual
  | notEqual
  /-- No comparison; it always holds. -/
  | none
deriving DecidableEq, Repr

namespace Operand

def ofSymbol? : String → Option Operand
  | "=" => some .equal
  | ">" => some .greater
  | "<" => some .less
  | ">=" => some .greaterOrEqual
  | "<=" => some .lessOrEqual
  | "!=" | "<>" => some .notEqual
  | _ => Option.none

def symbol : Operand → String
  | .equal => "="
  | .greater => ">"
  | .less => "<"
  | .greaterOrEqual => ">="
  | .lessOrEqual => "<="
  | .notEqual => "!="
  | .none => ""

/-- Whether the comparison holds of a value that stands in this order to the target. -/
def holds : Operand → Ordering → Bool
  | .equal, o => o == .eq
  | .greater, o => o == .gt
  | .less, o => o == .lt
  | .greaterOrEqual, o => o != .lt
  | .lessOrEqual, o => o != .gt
  | .notEqual, o => o != .eq
  | .none, _ => true

end Operand

/-- How the members of a group combine. -/
inductive Join where
  | and
  | or
deriving DecidableEq, Repr

def Join.symbol : Join → String
  | .and => "&&"
  | .or => "||"

/-- What a value is compared with. -/
inductive Target where
  /-- The value itself. -/
  | this
  | literal (v : Value)

/-- A rule without parts. -/
structure Bracket where
  source : String
  span : Span
  operand : Operand
  target : Option Target
  /-- In the order in which they are applied. -/
  modifiers : List Modifier
  /-- The set of their codes, as it was gathered while they were read. -/
  active : ModifierFlags
  /-- Modifiers mend the value where they can. -/
  force : Bool

/-- Whether a modifier of this code is active. -/
def Bracket.has (b : Bracket) (code : ModifierCode) : Bool := b.active.contains code.flag

/-- Rules joined in one way. -/
structure GroupOf (α : Type) where
  join : Join
  members : List α

inductive Rule where
  | bracket (b : Bracket)
  | node (source : String) (span : Span) (groups : List (GroupOf Rule))

abbrev Group := GroupOf Rule

namespace Rule

def source : Rule → String
  | .bracket b => b.source
  | .node s _ _ => s

def span : Rule → Span
  | .bracket b => b.span
  | .node _ s _ => s

end Rule

end Rulebook
