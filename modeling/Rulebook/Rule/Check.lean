import Rulebook.Rule.Basic
import Rulebook.Rule.Diagnostic
import Rulebook.Rule.Lookup

/-!
# Checks of modifiers

`Modifier.check` gives the verdict of one modifier on a value: it passes, it passes with another
value in its place, or it fails.  Only forced modifiers replace the value.  A modifier that does not
apply to the kind of the value is an error.  Null passes every modifier but `r`.
-/

namespace Rulebook

/-- Why a rule cannot be evaluated. -/
inductive EvalError where
  | wrongKind (code : ModifierCode) (kind : Kind)
  | noLookup (code : ModifierCode)
  | lookup (reason : String)
  | tooDeep (limit : Nat)
  /-- A number has to be held to bounds that are not in order, at which the program stops.  No range
  that compiles has such bounds. -/
  | unordered
deriving DecidableEq, Repr

def EvalError.message : EvalError → String
  | .wrongKind code kind =>
    "modifier '" ++ code.text ++ "' cannot be applied to a value of kind " ++ kind.name
  | .noLookup code => "modifier '" ++ code.text ++ "' requires a lookup but none is configured"
  | .lookup reason => "lookup failed: " ++ reason
  | .tooDeep limit => "nesting depth exceeds limit of " ++ Text.showNatural limit
  | .unordered => "min > max, or either was NaN"

/-- What a modifier says of a value. -/
inductive Verdict where
  | pass
  /-- Passes with this value instead. -/
  | mended (v : Value)
  | fail (kind : FailureKind) (detail : String)

/-- What a modifier is applied under. -/
structure CheckSetting where
  force : Bool
  ignoreCase : Bool
  lookup : Option Lookup

/-! ## Members -/

/-- Whether a value is this member of a list. -/
def Member.admits (ignoreCase : Bool) (v : Value) : Member → Bool
  | .value w => Value.equalLoose ignoreCase v w
  | .field column w => match v with
    | .object fields => match Members.get? column fields with
      | some u => Value.equalLoose ignoreCase u w
      | none => false
    | _ => false

def Member.text : Member → String
  | .value w => w.toText
  | .field column w => column ++ "." ++ w.display

namespace Modifier

open Text

/-! ## Case -/

def checkCase (code : ModifierCode) (convert : String → String) (failure : Verdict) (force : Bool) :
    Value → Except EvalError Verdict
  | .text s =>
    let t := convert s
    .ok (if t = s then .pass else if force then .mended (.text t) else failure)
  | v => .error (.wrongKind code v.kind)

/-! ## Limits -/

/-- The number `x` with the kind of `like`, which is kept for whole numbers. -/
def numberLike (like : Value) (x : Float) : Value :=
  match like with
  | .integer _ => if Decimal.isWhole x then .integer (Decimal.toInt64 x) else .decimal x
  | _ => .decimal x

/-- Number of things left by a limit on their count. -/
def room (limit : Float) : Nat := Decimal.toCount (Decimal.floor (Decimal.larger limit 0))

def checkMax (limit : Float) (force : Bool) (v : Value) : Except EvalError Verdict :=
  let shown := Decimal.plain.write limit
  match v with
  | .text s =>
    let n := s.length
    .ok (if Decimal.ofNat n ≤ limit then .pass
      else if force then .mended (.text (String.ofList (s.toList.take (room limit))))
      else .fail .exceedsMax ("length " ++ showNatural n ++ " exceeds maximum " ++ shown))
  | .list items =>
    let n := items.length
    .ok (if Decimal.ofNat n ≤ limit then .pass
      else if force then .mended (.list (items.take (room limit)))
      else .fail .exceedsMax (showNatural n ++ " items exceed maximum " ++ shown))
  | v => match v.isNumber, v.asDecimal? with
    | true, some x =>
      .ok (if x ≤ limit then .pass
        else if force then .mended (numberLike v limit)
        else .fail .exceedsMax (Decimal.plain.write x ++ " exceeds maximum " ++ shown))
    | _, _ => .error (.wrongKind .max v.kind)

def checkMin (limit : Float) (force : Bool) (v : Value) : Except EvalError Verdict :=
  let shown := Decimal.plain.write limit
  match v with
  | .text s =>
    let n := s.length
    .ok (if limit ≤ Decimal.ofNat n then .pass
      else .fail .belowMin ("length " ++ showNatural n ++ " is below minimum " ++ shown))
  | .list items =>
    let n := items.length
    .ok (if limit ≤ Decimal.ofNat n then .pass
      else .fail .belowMin (showNatural n ++ " items are below minimum " ++ shown))
  | v => match v.isNumber, v.asDecimal? with
    | true, some x =>
      .ok (if limit ≤ x then .pass
        else if force then .mended (numberLike v limit)
        else .fail .belowMin (Decimal.plain.write x ++ " is below minimum " ++ shown))
    | _, _ => .error (.wrongKind .min v.kind)

/-! ## E-mail addresses -/

def isLocalChar (c : Char) : Bool := isLetter c || isDigit c || ['.', '_', '%', '+', '-'].contains c

def isLabelChar (c : Char) : Bool := isLetter c || isDigit c || c == '-'

/-- Labels before the last are not empty, and the last is two letters or more. -/
def isDomain : List (List Char) → Bool
  | [] | [_] => false
  | [label, last] =>
    !label.isEmpty && label.all isLabelChar && 2 ≤ last.length && last.all isLetter
  | label :: rest => !label.isEmpty && label.all isLabelChar && isDomain rest

/-- `local@label.….label` with at least two labels. -/
def isAddress (cs : List Char) : Bool :=
  match cutOnce '@' cs with
  | some (name, domain) => !name.isEmpty && name.all isLocalChar && isDomain (pieces '.' domain)
  | none => false

def checkEmail : Value → Except EvalError Verdict
  | .text s =>
    let cs := trim s.toList
    .ok (if cs.isEmpty || isAddress cs then .pass
      else .fail .invalidEmail "not a valid email address")
  | v => .error (.wrongKind .email v.kind)

/-! ## Lists and tables -/

def checkOneOf (ignoreCase : Bool) (members : List Member) (v : Value) : Verdict :=
  if members.any (Member.admits ignoreCase v) then .pass
  else .fail .notInList ("not one of " ++ join ", " (members.map Member.text))

/-- Whether a column holds the value; columns after one that does are not looked up. -/
def foundIn (l : Lookup) (v : Value) : List Column → Except EvalError Bool
  | [] => .ok false
  | c :: cs => match l.contains c v with
    | .error reason => .error (.lookup reason)
    | .ok true => .ok true
    | .ok false => foundIn l v cs

def checkTables (lookup : Option Lookup) (columns : List Column) (v : Value) :
    Except EvalError Verdict :=
  match lookup with
  | none => .error (.noLookup .inTable)
  | some l => match foundIn l v columns with
    | .error e => .error e
    | .ok true => .ok .pass
    | .ok false => .ok (.fail .notInLookup ("not found in " ++ join ", " (columns.map Column.text)))

/-! ## Presence -/

def isPresent : Value → Bool
  | .null => false
  | .text s => !(strip s).isEmpty
  | .list items => !items.isEmpty
  | _ => true

/-! ## Rounding -/

/-- The noise allowed on a scaled number; it grows with its size. -/
def tolerance (scaled : Float) : Float :=
  Float.ofBits 0x3CB0000000000000 * Decimal.larger scaled.abs 1 * 4

def isNearWhole (scaled : Float) : Bool := (scaled - Decimal.round scaled).abs ≤ tolerance scaled

/-- No more than `digits` decimals, but for noise. -/
def hasDecimals (digits : Nat) (x : Float) : Bool := isNearWhole (x * Decimal.tenTo digits)

def roundTo (digits : Nat) (up : Bool) (x : Float) : Float :=
  let factor := Decimal.tenTo digits
  let scaled := x * factor
  if isNearWhole scaled then Decimal.round scaled / factor
  else (if up then Decimal.ceil scaled else Decimal.floor scaled) / factor

/-- The decimal that is rounded; whole numbers have none. -/
def roundable (code : ModifierCode) : Value → Except EvalError (Option Float)
  | .integer _ => .ok none
  | .decimal x => .ok (some x)
  | .text s => match Decimal.readFinite? (trim s.toList) with
    | some x => .ok (some x)
    | none => .error (.wrongKind code .text)
  | v => .error (.wrongKind code v.kind)

def checkRounding (code : ModifierCode) (digits : Nat) (up force : Bool) (v : Value) :
    Except EvalError Verdict :=
  match roundable code v with
  | .error e => .error e
  | .ok none => .ok .pass
  | .ok (some x) =>
    .ok (if hasDecimals digits x then .pass
      else if force then .mended (.decimal (roundTo digits up x))
      else .fail (if up then .notRoundedUp else .notRoundedDown)
        (Decimal.plain.write x ++ " has more than " ++ showNatural digits ++ " decimals"))

/-! ## Ranges -/

/-- A range of dates, as opposed to one of numbers. -/
def isDateRange (low : Value) : Bool := !low.isNumber && low.asDate?.isSome

/-- The numeric bounds; one that is no number does not bound. -/
def numericBounds (low high : Value) : Float × Float :=
  (low.asDecimal?.getD (Float.ofBits 0xFFF0000000000000),
    high.asDecimal?.getD (Float.ofBits 0x7FF0000000000000))

def clamp (lo hi x : Float) : Float :=
  let y := if x < lo then lo else x
  if hi < y then hi else y

/-- Holding a number to bounds that have to be in order; NaN is in order with nothing. -/
def clamp? (lo hi x : Float) : Option Float := if lo ≤ hi then some (clamp lo hi x) else none

/-- The number that a range is about: a length, a count, or the number itself. -/
def measure : Value → Except EvalError Float
  | .text s => .ok (Decimal.ofNat s.length)
  | .list items => .ok (Decimal.ofNat items.length)
  | .integer n => .ok (Decimal.ofInt n.toInt)
  | .decimal x => .ok x
  | v => .error (.wrongKind .between v.kind)

def dateWithin (low high : Value) (d : Date) : Bool :=
  match low.asDate?, high.asDate? with
  | some lo, some hi => d.order lo != .lt && d.order hi != .gt
  | _, _ => false

def checkRange (low high : Value) (force : Bool) (v : Value) : Except EvalError Verdict :=
  let outside : Verdict :=
    .fail .outOfRange ("not between " ++ low.display ++ " and " ++ high.display)
  if isDateRange low then
    match v.asDate? with
    | none => .error (.wrongKind .between v.kind)
    | some d => .ok (if dateWithin low high d then .pass else outside)
  else
    let (lo, hi) := numericBounds low high
    match measure v with
    | .error e => .error e
    | .ok x =>
      if lo ≤ x && x ≤ hi then .ok .pass
      else if force && v.isNumber then
        match clamp? lo hi x with
        | some y => .ok (.mended (numberLike v y))
        | none => .error .unordered
      else .ok outside

/-! ## All modifiers -/

/-- The verdict on a value that is not null. -/
def checkValue (m : Modifier) (s : CheckSetting) (v : Value) : Except EvalError Verdict :=
  match m with
  | .upper => checkCase .upper Text.upper (.fail .notUppercase "text is not upper case") s.force v
  | .lower => checkCase .lower Text.lower (.fail .notLowercase "text is not lower case") s.force v
  | .ignoreCase => .ok .pass
  | .max limit => checkMax limit s.force v
  | .min limit => checkMin limit s.force v
  | .email => checkEmail v
  | .oneOf members => .ok (checkOneOf s.ignoreCase members v)
  | .inTable columns => checkTables s.lookup columns v
  | .required => .ok (if isPresent v then .pass else .fail .required "a value is required")
  | .roundUp digits => checkRounding .roundUp digits true s.force v
  | .roundDown digits => checkRounding .roundDown digits false s.force v
  | .between low high => checkRange low high s.force v

/-- The verdict of a modifier on a value. -/
def check (m : Modifier) (s : CheckSetting) (v : Value) : Except EvalError Verdict :=
  if v.isNull && m.code != .required then .ok .pass else checkValue m s v

end Modifier

end Rulebook
