import Rulebook.Text.Numeral

/-!
# Scalars of YAML

Plain, quoted and block scalars.  A scalar may go on over lines: one line break between two of its
lines stands for a blank, and `n + 1` breaks stand for `n`.  Block scalars keep their lines (`|`) or
fold them (`>`), and keep one line break at their end (by default), none (`-`) or all (`+`).

Every reader takes its scalar off the head of the text.  A plain scalar on its own lines and a block
scalar leave the beginning of a line.
-/

namespace Rulebook.Yaml

open Text

/-- Takes a thing off the head of a text. -/
abbrev Reader (α : Type) := List Char → Option (α × List Char)

def isBlank (c : Char) : Bool := c == ' ' || c == '\t'

/-- Starts with a blank or a line break, or is at the end. -/
def atGap : List Char → Bool
  | [] => true
  | c :: _ => isBlank c || c == '\n'

def dropBlanks (cs : List Char) : List Char := cs.dropWhile isBlank

def dropBlanksEnd (cs : List Char) : List Char := (cs.reverse.dropWhile isBlank).reverse

/-- The text after the line that begins here. -/
def dropLine : List Char → List Char
  | [] => []
  | '\n' :: r => r
  | _ :: r => dropLine r

/-- The rest of a line after a value, where there is nothing but blanks and a comment. -/
def lineEnd? (cs : List Char) : Option (List Char) :=
  match dropBlanks cs with
  | [] => some []
  | '\n' :: r => some r
  | '#' :: r => some (dropLine r)
  | _ => none

/-! ## White space inside scalars -/

/-- White space inside a scalar, until it is known whether text follows. -/
inductive Gap where
  | blanks (cs : List Char)
  /-- A line break that alone stands for `first`, and `more` breaks after it. -/
  | breaks (first : List Char) (more : Nat)

namespace Gap

def none : Gap := .blanks []

def blank (c : Char) : Gap → Gap
  | .blanks cs => .blanks (cs ++ [c])
  | g => g

def lineBreak : Gap → Gap
  | .blanks _ => .breaks [' '] 0
  | .breaks first more => .breaks first (more + 1)

/-- What the white space stands for before more text. -/
def text : Gap → List Char
  | .blanks cs => cs
  | .breaks first 0 => first
  | .breaks _ more => List.replicate more '\n'

end Gap

/-! ## Quoted scalars -/

/-- A text after its opening single quote; two quotes stand for one. -/
def singleQuoted (gap : Gap) : Reader (List Char)
  | [] => none
  | '\'' :: '\'' :: r => (singleQuoted .none r).map fun (s, r) => (gap.text ++ '\'' :: s, r)
  | '\'' :: r => some (gap.text, r)
  | c :: r =>
    if c = '\n' then singleQuoted gap.lineBreak r
    else if isBlank c then singleQuoted (gap.blank c) r
    else (singleQuoted .none r).map fun (s, r) => (gap.text ++ c :: s, r)

/-- The character whose number is in the first `n` characters. -/
def numberedChar? (n : Nat) (cs : List Char) : Option (Char × List Char) := do
  if cs.length < n then none
  let code ← baseDigits? 16 (cs.take n)
  if code.isValidChar then some (Char.ofNat code, cs.drop n) else none

/-- The character of an escape after its backslash. -/
def escape? : Reader Char
  | [] => none
  | c :: r => match c with
    | '0' => some ('\x00', r)
    | 'a' => some ('\x07', r)
    | 'b' => some ('\x08', r)
    | 't' => some ('\t', r)
    | '\t' => some ('\t', r)
    | 'n' => some ('\n', r)
    | 'v' => some ('\x0b', r)
    | 'f' => some ('\x0c', r)
    | 'r' => some ('\r', r)
    | 'e' => some ('\x1b', r)
    | ' ' => some (' ', r)
    | '"' => some ('"', r)
    | '/' => some ('/', r)
    | '\\' => some ('\\', r)
    | 'N' => some ('\u0085', r)
    | '_' => some ('\u00a0', r)
    | 'L' => some ('\u2028', r)
    | 'P' => some ('\u2029', r)
    | 'x' => numberedChar? 2 r
    | 'u' => numberedChar? 4 r
    | 'U' => numberedChar? 8 r
    | _ => none

/-- A text after its opening double quote; `fuel` bounds its length.  A backslash before a line
break makes the break stand for nothing. -/
def doubleQuoted : Nat → Gap → Reader (List Char)
  | 0, _, _ => none
  | _, _, [] => none
  | _, gap, '"' :: r => some (gap.text, r)
  | fuel + 1, gap, '\\' :: '\n' :: r =>
    (doubleQuoted fuel (.breaks [] 0) r).map fun (s, r) => (gap.text ++ s, r)
  | fuel + 1, gap, '\\' :: r => do
    let (c, r) ← escape? r
    let (s, r) ← doubleQuoted fuel .none r
    some (gap.text ++ c :: s, r)
  | fuel + 1, gap, c :: r =>
    if c = '\n' then doubleQuoted fuel gap.lineBreak r
    else if isBlank c then doubleQuoted fuel (gap.blank c) r
    else (doubleQuoted fuel .none r).map fun (s, r) => (gap.text ++ c :: s, r)

/-- A quoted text, if the text begins with a quote. -/
def quoted? : List Char → Option (Option (List Char × List Char))
  | '"' :: r => some (doubleQuoted (r.length + 1) .none r)
  | '\'' :: r => some (singleQuoted .none r)
  | _ => none

/-! ## Plain scalars -/

/-- The marks of flow collections. -/
def isFlowMark (c : Char) : Bool := c == ',' || c == '[' || c == ']' || c == '{' || c == '}'

/-- Whether a plain scalar may begin here, on a line or inside a flow collection. -/
def isPlainStart (flow : Bool) : List Char → Bool
  | [] => false
  | '-' :: r => !atGap r
  | '?' :: r => !flow && !atGap r
  | ':' :: r => !flow && !atGap r
  | c :: r => !atGap (c :: r) && !",[]\x7b\x7d#&*!|>'\"%@`".toList.contains c

/-- Whether a line of a plain scalar is over here. -/
def endsPlain (flow : Bool) : List Char → Bool
  | [] => true
  | '\n' :: _ => true
  | ':' :: r => atGap r || (flow && (r.head?.any fun c => isFlowMark c || c == '?'))
  | c :: r => (flow && isFlowMark c) || (isBlank c && r.head? == some '#')

/-- The part of a plain scalar that is on this line. -/
def plainPart (flow : Bool) : List Char → List Char × List Char
  | [] => ([], [])
  | c :: r =>
    if endsPlain flow (c :: r) then ([], c :: r)
    else
      let (s, r) := plainPart flow r
      (c :: s, r)

/-- Goes over blanks and line breaks to the next text: the breaks, the column and the text.  A tab
cannot stand for the indentation to the column `floor`. -/
def plainGap (floor : Nat) (gap : Gap) (column : Nat) : List Char → Option (Gap × Nat × List Char)
  | ' ' :: r => plainGap floor gap (column + 1) r
  | '\t' :: r => if column < floor then none else plainGap floor gap (column + 1) r
  | '\n' :: r => plainGap floor gap.lineBreak 0 r
  | r => some (gap, column, r)

/-- A plain scalar whose further lines are indented to the column `floor`; `fuel` bounds the number
of its lines. -/
def plainLines (floor : Nat) : Nat → Reader (List Char)
  | 0, _ => none
  | fuel + 1, cs =>
    let (s, r) := plainPart false cs
    let s := dropBlanksEnd s
    match dropBlanks r with
    | [] => some (s, [])
    | '#' :: r => some (s, dropLine r)
    | '\n' :: r => do
      let (gap, column, r) ← plainGap floor (Gap.none.lineBreak) 0 r
      if r = [] then some (s, [])
      else if r.head? = some '#' then some (s, dropLine r)
      else if column < floor then some (s, List.replicate column ' ' ++ r)
      else
        let (t, r) ← plainLines floor fuel r
        some (s ++ gap.text ++ t, r)
    | _ => none

/-- A plain scalar inside a flow collection; `fuel` bounds the number of its lines. -/
def flowPlain : Nat → Reader (List Char)
  | 0, _ => none
  | fuel + 1, cs =>
    let (s, r) := plainPart true cs
    let s := dropBlanksEnd s
    match dropBlanks r with
    | '\n' :: r => do
      let (gap, _, r) ← plainGap 0 (Gap.none.lineBreak) 0 r
      if r.head? = some '#' ∨ endsPlain true r then some (s, r)
      else
        let (t, r) ← flowPlain fuel r
        some (s ++ gap.text ++ t, r)
    | r => some (s, r)

/-! ## Block scalars -/

/-- What is kept of the line breaks at the end. -/
inductive Chomp where
  | one
  | none
  | all
deriving DecidableEq

structure BlockHeader where
  folded : Bool
  chomp : Chomp := .one
  /-- Indentation beyond that of the collection around it. -/
  indent? : Option Nat := none

def chomp? : Char → Option Chomp
  | '-' => some .none
  | '+' => some .all
  | _ => none

def indentDigit? (c : Char) : Option Nat := (digits? [c]).filter (0 < ·)

/-- The rest of a header after `|` or `>`, and its line. -/
def blockHeader? (folded : Bool) (cs : List Char) : Option (BlockHeader × List Char) :=
  let (h, r) : BlockHeader × List Char := match cs with
    | a :: r => match chomp? a, indentDigit? a with
      | some chomp, _ => match r with
        | b :: r' => match indentDigit? b with
          | some n => ({ folded, chomp, indent? := some n }, r')
          | none => ({ folded, chomp }, r)
        | [] => ({ folded, chomp }, [])
      | none, some n => match r with
        | b :: r' => match chomp? b with
          | some chomp => ({ folded, chomp, indent? := some n }, r')
          | none => ({ folded, indent? := some n }, r)
        | [] => ({ folded, indent? := some n }, [])
      | none, none => ({ folded }, cs)
    | [] => ({ folded }, [])
  (lineEnd? r).map fun r => (h, r)

/-- A place at the first text of a line, or at the indentation of a block scalar. -/
structure BlockPlace where
  /-- Line breaks before it. -/
  breaks : Nat := 0
  column : Nat := 0
  /-- The deepest indentation so far. -/
  deepest : Nat := 0
  rest : List Char

/-- Goes over line breaks and at most `indent` blanks of the next line. -/
def blockPlace (indent? : Option Nat) (breaks column deepest : Nat) : List Char → Option BlockPlace
  | ' ' :: r =>
    if indent?.all (column < ·) then blockPlace indent? breaks (column + 1) deepest r
    else some { breaks, column, deepest := max deepest column, rest := ' ' :: r }
  | '\t' :: r =>
    if indent?.all (column < ·) then none
    else some { breaks, column, deepest := max deepest column, rest := '\t' :: r }
  | '\n' :: r => blockPlace indent? (breaks + 1) 0 (max deepest column) r
  | r => some { breaks, column, deepest := max deepest column, rest := r }

/-- The text between two lines, when a line break stands before the second. -/
def blockJoint (folded afterBreak afterBlank beforeBlank : Bool) (breaks : Nat) : List Char :=
  let joint :=
    if !afterBreak then []
    else if folded && !afterBlank && !beforeBlank then (if breaks = 0 then [' '] else [])
    else ['\n']
  joint ++ List.replicate breaks '\n'

/-- The lines at the column `indent` from a place on; `fuel` bounds their number. -/
def blockLines (h : BlockHeader) (indent : Nat) :
    Nat → (afterBreak afterBlank : Bool) → BlockPlace → Option (List Char × List Char)
  | 0, _, _, _ => none
  | fuel + 1, afterBreak, afterBlank, p =>
    if p.column ≠ indent ∨ p.rest = [] then
      let last := if afterBreak then ['\n'] else []
      let tail := match h.chomp with
        | .none => []
        | .one => last
        | .all => last ++ List.replicate p.breaks '\n'
      some (tail, List.replicate p.column ' ' ++ p.rest)
    else do
      let line := p.rest.takeWhile (· != '\n')
      let r := p.rest.dropWhile (· != '\n')
      let startsBlank := line.head?.any isBlank
      let joint := blockJoint h.folded afterBreak afterBlank startsBlank p.breaks
      let next ← blockPlace (some indent) 0 0 0 (r.drop 1)
      let (s, r) ← blockLines h indent fuel (!r.isEmpty) startsBlank next
      some (joint ++ line ++ s, r)

/-- A block scalar after its header, inside a collection whose values start at the column `floor` or
beyond. -/
def blockScalar (h : BlockHeader) (floor : Nat) (cs : List Char) :
    Option (List Char × List Char) := do
  let indent? := h.indent?.map (floor - 1 + ·)
  let p ← blockPlace indent? 0 0 0 cs
  let indent := indent?.getD (max p.deepest (max floor 1))
  blockLines h indent (cs.length + 1) false false p

end Rulebook.Yaml
