import Rulebook.Json.Basic
import Rulebook.Decimal.Read

/-!
# Reading JSON

`Json.read?` takes one document with nothing but blanks around it.  Arrays and objects nest at most
127 deep.  Numbers without fraction and exponent are whole when they fit 64 bits, signed or not;
minus zero and all others are decimals.

A decimal is computed from the digits that fit 64 bits, scaled once by a power of ten: it is the
value of `significand · 10 ^ exponent` up to the rounding of that one step, and one beyond the range
of decimals is refused.
-/

namespace Rulebook.Json

open Text

/-- Takes a thing off the head of a text. -/
abbrev Reader (α : Type) := List Char → Option (α × List Char)

def isBlank (c : Char) : Bool := c == ' ' || c == '\n' || c == '\t' || c == '\r'

def skip (cs : List Char) : List Char := cs.dropWhile isBlank

/-! ## Numbers -/

/-- Whether one more digit keeps the significand within 64 bits. -/
def fits (acc : Nat) (c : Char) : Bool := 10 * acc + digitValue c < 0x10000000000000000

/-- The significand of the digits before the point, and how many of them it leaves out. -/
def wholeDigits (acc : Nat) : List Char → Nat × Nat
  | [] => (acc, 0)
  | c :: cs => if fits acc c then wholeDigits (10 * acc + digitValue c) cs else (acc, cs.length + 1)

/-- Takes in digits after the point; the significand, and how many were taken. -/
def fractionDigits (acc : Nat) : List Char → Nat × Nat
  | [] => (acc, 0)
  | c :: cs =>
    if fits acc c then
      let (n, k) := fractionDigits (10 * acc + digitValue c) cs
      (n, k + 1)
    else (acc, 0)

/-- `x · 10 ^ e` in one step where the power is a decimal, and in steps of 308 below. -/
def scale (x : Float) (e : Int) : Option Float :=
  if e.natAbs ≤ 308 then
    if 0 ≤ e then (some (x * Decimal.nearest 1 e)).filter Decimal.isFinite
    else some (x / Decimal.nearest 1 (-e))
  else if x == 0 then some x
  else if 0 ≤ e then none
  else scale (x / Decimal.nearest 1 308) (e + 308)
termination_by e.natAbs
decreasing_by omega

/-- The digits after a point, at least one. -/
def fraction? : List Char → Option (List Char × List Char)
  | '.' :: cs =>
    let ds := cs.takeWhile isDigit
    if ds = [] then none else some (ds, cs.dropWhile isDigit)
  | cs => some ([], cs)

/-- Sign and digits of an exponent. -/
def exponentDigits? (cs : List Char) : Option (Int × List Char) :=
  let (negative, cs) := match cs with
    | '+' :: r => (false, r)
    | '-' :: r => (true, r)
    | r => (false, r)
  let ds := cs.takeWhile isDigit
  if ds = [] then none
  else
    let n : Int := digitsValue 0 ds
    some (if negative then -n else n, cs.dropWhile isDigit)

/-- The exponent, if one is written. -/
def exponent? : List Char → Option (Option Int × List Char)
  | 'e' :: cs => (exponentDigits? cs).map fun (e, r) => (some e, r)
  | 'E' :: cs => (exponentDigits? cs).map fun (e, r) => (some e, r)
  | cs => some (none, cs)

/-- A whole number that fits, with its sign. -/
def integer? (negative : Bool) (n : Nat) : Option Int :=
  if negative then (if 0 < n ∧ n ≤ 0x8000000000000000 then some (-(n : Int)) else none) else some n

def number? (negative : Bool) (cs : List Char) : Option (Json × List Char) := do
  let whole := cs.takeWhile isDigit
  let rest := cs.dropWhile isDigit
  if whole = [] ∨ (whole.head? = some '0' ∧ 1 < whole.length) then none
  let (n, dropped) := wholeDigits 0 whole
  let (fraction, rest) ← fraction? rest
  let (e, rest) ← exponent? rest
  let plain := if dropped = 0 ∧ fraction = [] ∧ e = none then integer? negative n else none
  match plain with
  | some i => some (.integer i, rest)
  | none =>
    let (n, taken) := fractionDigits n fraction
    let x ← scale (Decimal.ofNat n) (dropped - taken + e.getD 0)
    some (.decimal (if negative then -x else x), rest)

/-! ## Strings -/

/-- Four hexadecimal digits. -/
def unit? : Reader Nat
  | a :: b :: c :: d :: rest => do
    let a ← hexValue? a
    let b ← hexValue? b
    let c ← hexValue? c
    let d ← hexValue? d
    some (((a * 16 + b) * 16 + c) * 16 + d, rest)
  | _ => none

/-- The character of `\uXXXX`, or of two such escapes that form a surrogate pair. -/
def unicodeEscape? (cs : List Char) : Option (Char × List Char) := do
  let (hi, rest) ← unit? cs
  if 0xDC00 ≤ hi ∧ hi ≤ 0xDFFF then none
  else if 0xD800 ≤ hi ∧ hi ≤ 0xDBFF then
    match rest with
    | '\\' :: 'u' :: more => do
      let (lo, rest) ← unit? more
      if 0xDC00 ≤ lo ∧ lo ≤ 0xDFFF then
        some (Char.ofNat (0x10000 + (hi - 0xD800) * 0x400 + (lo - 0xDC00)), rest)
      else none
    | _ => none
  else some (Char.ofNat hi, rest)

def escape? : Reader Char
  | '"' :: r => some ('"', r)
  | '\\' :: r => some ('\\', r)
  | '/' :: r => some ('/', r)
  | 'b' :: r => some ('\x08', r)
  | 'f' :: r => some ('\x0c', r)
  | 'n' :: r => some ('\n', r)
  | 'r' :: r => some ('\r', r)
  | 't' :: r => some ('\t', r)
  | 'u' :: r => unicodeEscape? r
  | _ => none

/-- The characters up to the closing quote; `fuel` bounds the length of the text. -/
def stringBody? : Nat → Reader (List Char)
  | 0, _ => none
  | _, [] => none
  | _, '"' :: r => some ([], r)
  | fuel + 1, '\\' :: r => do
    let (c, r) ← escape? r
    let (cs, r) ← stringBody? fuel r
    some (c :: cs, r)
  | fuel + 1, c :: r =>
    if c.toNat < 0x20 then none
    else (stringBody? fuel r).map fun (cs, r) => (c :: cs, r)

def string? (cs : List Char) : Option (String × List Char) :=
  (stringBody? (cs.length + 1) cs).map fun (s, r) => (String.ofList s, r)

/-! ## Documents -/

/-- The items after the first of an array, up to its end. -/
def items? (item : Reader Json) : Nat → Reader (List Json)
  | 0, _ => none
  | fuel + 1, cs =>
    match skip cs with
    | ']' :: r => some ([], r)
    | ',' :: r => do
      let (j, r) ← item (skip r)
      let (js, r) ← items? item fuel r
      some (j :: js, r)
    | _ => none

/-- A key, a colon and a document. -/
def member? (item : Reader Json) : Reader (String × Json)
  | '"' :: r => do
    let (k, r) ← string? r
    match skip r with
    | ':' :: r => do
      let (j, r) ← item (skip r)
      some ((k, j), r)
    | _ => none
  | _ => none

/-- The members after the first of an object, up to its end. -/
def members? (item : Reader Json) : Nat → Reader (List (String × Json))
  | 0, _ => none
  | fuel + 1, cs =>
    match skip cs with
    | '}' :: r => some ([], r)
    | ',' :: r => do
      let (m, r) ← member? item (skip r)
      let (ms, r) ← members? item fuel r
      some (m :: ms, r)
    | _ => none

/-- A document at the head of the text, with at most `depth` levels of arrays and objects. -/
def document? : Nat → Reader Json
  | depth, cs =>
    match cs with
    | 'n' :: 'u' :: 'l' :: 'l' :: r => some (.null, r)
    | 't' :: 'r' :: 'u' :: 'e' :: r => some (.bool true, r)
    | 'f' :: 'a' :: 'l' :: 's' :: 'e' :: r => some (.bool false, r)
    | '"' :: r => (string? r).map fun (s, r) => (.string s, r)
    | '-' :: r => number? true r
    | '[' :: r =>
      match depth with
      | 0 => none
      | depth + 1 =>
        match skip r with
        | ']' :: r => some (.array [], r)
        | r => do
          let (j, r) ← document? depth r
          let (js, r) ← items? (document? depth) (r.length + 1) r
          some (.array (j :: js), r)
    | '{' :: r =>
      match depth with
      | 0 => none
      | depth + 1 =>
        match skip r with
        | '}' :: r => some (.object [], r)
        | r => do
          let (m, r) ← member? (document? depth) r
          let (ms, r) ← members? (document? depth) (r.length + 1) r
          some (.object (Members.ofList (m :: ms)), r)
    | r => number? false r

/-- The document that a text holds. -/
def read? (s : String) : Option Json := do
  let (j, rest) ← document? 127 (skip s.toList)
  if (skip rest).isEmpty then some j else none

end Rulebook.Json
