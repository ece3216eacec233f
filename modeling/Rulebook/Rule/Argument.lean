import Rulebook.ParseError
import Rulebook.Text.Split
import Rulebook.Value.Order

/-!
# Arguments of modifiers

`Modifier.ofCode` turns a code and its arguments into a modifier, or says what is wrong with them.
The modifiers it builds are well formed: limits are finite, lists are not empty, there are at most
15 digits, and the lower bound of a range does not exceed the upper.
-/

namespace Rulebook

/-- An argument as written; quoted ones are always text. -/
structure Argument where
  text : String
  quoted : Bool
deriving DecidableEq, Repr

def Argument.value (a : Argument) : Value := if a.quoted then .text a.text else .literal a.text

/-- A letter or underscore, and then letters, digits and underscores. -/
def isIdentifier : List Char → Bool
  | [] => false
  | c :: cs => (Text.isLetter c || c == '_') && cs.all Text.isWordChar

namespace Modifier

open Text

/-- What stops a modifier from being built. -/
inductive Fault where
  | unknown (code : String)
  | missing (code : ModifierCode)
  /-- The argument at fault. -/
  | argument (code : ModifierCode) (text : String) (fault : ArgumentFault)
  /-- The arguments are wrong together. -/
  | together (code : ModifierCode) (fault : ArgumentFault)

/-- The error of a fault in the modifier written as `fragment`. -/
def Fault.error (fragment : String) (position : Nat) (f : Fault) : ParseError :=
  let cause : ParseCause := match f with
    | .unknown code => .unknownModifier code
    | .missing code => .missingArgument code
    | .argument code text fault => .invalidArgument code text fault
    | .together code fault => .invalidArgument code fragment fault
  ⟨cause, fragment, position⟩

/-- A modifier that takes no arguments. -/
def bare (m : Modifier) : List Argument → Except Fault Modifier
  | [] => .ok m
  | a :: _ => .error (.argument m.code a.text .takesNone)

def limit (code : ModifierCode) : List Argument → Except Fault Float
  | [] => .error (.missing code)
  | [a] => match Decimal.readFinite? (trim a.text.toList) with
    | some x => .ok x
    | none => .error (.argument code a.text .notANumber)
  | _ :: a :: _ => .error (.argument code a.text .notExactlyOne)

/-- Number of decimals, none when it is not given. -/
def digits (code : ModifierCode) : List Argument → Except Fault Nat
  | [] => .ok 0
  | [a] => match (natural? (trim a.text.toList)).filter (· ≤ 15) with
    | some n => .ok n
    | none => .error (.argument code a.text .notDigits)
  | _ :: a :: _ => .error (.argument code a.text .moreThanOne)

/-- `column.value` is a test of a field, when it is not quoted and the column is an identifier. -/
def member (a : Argument) : Member :=
  match cutOnce '.' a.text.toList with
  | some (column, value) =>
    if !a.quoted && isIdentifier column && !value.isEmpty then
      .field (String.ofList column) (.literal (String.ofList value))
    else .value a.value
  | none => .value a.value

def column (a : Argument) : Except Fault Column :=
  match cutOnce '.' a.text.toList with
  | some (table, column) =>
    if table.isEmpty || column.isEmpty then .error (.argument .inTable a.text .notAColumn)
    else .ok ⟨String.ofList (trim table), String.ofList (trim column)⟩
  | none => .error (.argument .inTable a.text .notAColumn)

def columns : List Argument → Except Fault (List Column)
  | [] => .ok []
  | a :: as => do
    let c ← column a
    let cs ← columns as
    return c :: cs

/-- A number or a date. -/
def bound (a : Argument) : Except Fault Value :=
  let v := Value.literal a.text
  if v.asDecimal?.isSome || v.asDate?.isSome then .ok v
  else .error (.argument .between a.text .notABound)

def range : List Argument → Except Fault Modifier
  | [] => .error (.missing .between)
  | [_] => .error (.together .between .notTwoBounds)
  | [a, b] => do
    let low ← bound a
    let high ← bound b
    if Value.compareLoose false low high = .gt then .error (.together .between .boundsReversed)
    else .ok (.between low high)
  | _ :: _ :: a :: _ => .error (.argument .between a.text .moreThanTwo)

/-- The modifier with this code and these arguments. -/
def ofCode (code : ModifierCode) (args : List Argument) : Except Fault Modifier :=
  match code with
  | .upper => bare .upper args
  | .lower => bare .lower args
  | .ignoreCase => bare .ignoreCase args
  | .email => bare .email args
  | .required => bare .required args
  | .max => (limit .max args).map .max
  | .min => (limit .min args).map .min
  | .oneOf => if args.isEmpty then .error (.missing .oneOf) else .ok (.oneOf (args.map member))
  | .inTable =>
    if args.isEmpty then .error (.missing .inTable) else (columns args).map .inTable
  | .roundUp => (digits .roundUp args).map .roundUp
  | .roundDown => (digits .roundDown args).map .roundDown
  | .between => range args

/-- The modifier written with this code, in any case. -/
def build (written : String) (args : List Argument) : Except Fault Modifier :=
  let word := lowerAscii written
  match ModifierCode.ofText? word with
  | some code => ofCode code args
  | none => .error (.unknown word)

end Modifier

end Rulebook
