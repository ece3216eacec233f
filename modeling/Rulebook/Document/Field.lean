import Rulebook.Document.Basic
import Rulebook.Text.Numeral

/-!
# Fields of documents

Readings of a document as what a field asks for.  A record names each of its known fields at most
once, and other fields are ignored.  Absent fields have defaults; a null is absent only where a
field is optional.
-/

namespace Rulebook.Document

open Text

/-! ## Scalars -/

def text? : Document → Option String
  | .word s => some s
  | .text s => some s
  | _ => none

/-- Stands for nothing in an optional field. -/
def isNothing : Document → Bool
  | .null => true
  | .word s => s == "" || s == "~" || s == "null" || s == "Null" || s == "NULL"
  | _ => false

/-- The name of a case: a text, or a record that gives the case no contents. -/
def caseName? : Document → Option String
  | .record [(s, .null)] => some s
  | d => d.text?

/-- A number without sign: decimal, or to base 16, 8 or 2 after `0x`, `0o` or `0b`.  A decimal
number does not begin with a zero that it could go without. -/
def wordNatural? : List Char → Option Nat
  | '0' :: 'x' :: cs => baseDigits? 16 cs
  | '0' :: 'o' :: cs => baseDigits? 8 cs
  | '0' :: 'b' :: cs => baseDigits? 2 cs
  | '0' :: _ :: _ => none
  | cs => digits? cs

/-- A whole number, which may be negative where it is `signed`. -/
def wordInteger? (signed : Bool) : List Char → Option Int
  | '+' :: cs => (wordNatural? cs).map fun n => (n : Int)
  | '-' :: cs => if signed then (wordNatural? cs).map fun n => -(n : Int) else none
  | cs => (wordNatural? cs).map fun n => (n : Int)

def integer? (signed : Bool) : Document → Option Int
  | .integer n => some n
  | .word s => wordInteger? signed s.toList
  | _ => none

/-- A natural number below `bound`. -/
def naturalBelow? (bound : Nat) (d : Document) : Option Nat := do
  let n ← d.integer? false
  if 0 ≤ n ∧ n < bound then some n.toNat else none

/-- A whole number of 32 bits. -/
def int32? (d : Document) : Option Int :=
  (d.integer? true).filter fun n => -0x80000000 ≤ n ∧ n < 0x80000000

/-! ## Lists and records

Lists and records that are read nest at most `depthLimit` deep.  A word of no characters is
empty. -/

def depthLimit : Nat := 128

/-- The items of a list that may hold `levels` levels. -/
def items? (levels : Nat) : Document → Option (List Document)
  | .list _ items => if levels = 0 then none else some items
  | .word "" => some []
  | _ => none

/-- Texts in a list. -/
def texts? (levels : Nat) (d : Document) : Option (List String) := do
  (← d.items? levels).mapM text?

/-- No known name twice. -/
def namesOnce (names : List String) (entries : List (String × Document)) : Bool :=
  names.all fun n => (entries.filter (·.1 == n)).length ≤ 1

/-- The entries of a record with these fields.  A list of positional items gives the fields in
order, at least the first `least`. -/
def entries? (levels : Nat) (names : List String) (least : Nat) :
    Document → Option (List (String × Document))
  | .record entries => if levels ≠ 0 ∧ namesOnce names entries then some entries else none
  | .list true items =>
    if levels ≠ 0 ∧ least ≤ items.length ∧ items.length ≤ names.length then some (names.zip items)
    else none
  | .word "" => some []
  | _ => none

/-- A field that must be there. -/
def required {α : Type} (entries : List (String × Document)) (name : String)
    (read : Document → Option α) : Option α := do
  read (← entries.lookup name)

/-- A field with a default. -/
def withDefault {α : Type} (entries : List (String × Document)) (name : String) (default : α)
    (read : Document → Option α) : Option α :=
  match entries.lookup name with
  | some d => read d
  | none => some default

/-- A field that may be absent or null. -/
def optional {α : Type} (entries : List (String × Document)) (name : String)
    (read : Document → Option α) : Option (Option α) :=
  match entries.lookup name with
  | some d => if d.isNothing then some none else (read d).map some
  | none => some none

end Rulebook.Document
