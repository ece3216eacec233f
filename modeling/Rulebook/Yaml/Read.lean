import Rulebook.Text.Split
import Rulebook.Yaml.Flow

/-!
# Reading YAML

`Yaml.read?` takes a text that holds one document: block lists and records, flow collections, plain,
quoted and block scalars, and comments.  Anchors, tags, directives and keys that are no scalars are
refused, as is a tab in the place of indentation.

The entries of a block record begin at one column, and their values beyond it; a list may begin at
the column of its key.
-/

namespace Rulebook.Yaml

/-! ## Lines -/

/-- A text at a column. -/
structure Cursor where
  column : Nat
  rest : List Char

/-- The text from the beginning of its line. -/
def Cursor.line (c : Cursor) : List Char := List.replicate c.column ' ' ++ c.rest

/-- From the beginning of a line to the next text that is no comment. -/
def seek (comment : Bool) (column : Nat) : List Char → Option Cursor
  | [] => some ⟨0, []⟩
  | c :: r =>
    if c = '\n' then seek false 0 r
    else if comment then seek true 0 r
    else if c = ' ' then seek false (column + 1) r
    else if c = '#' then seek true 0 r
    else if c = '\t' then none
    else some ⟨column, c :: r⟩

/-- The mark of a list item. -/
def isItem : List Char → Bool
  | '-' :: r => atGap r
  | _ => false

/-- A key that begins here and is on one line with its colon; the text after that. -/
def key? (cs : List Char) : Option (String × List Char) := do
  let line := cs.takeWhile (· != '\n')
  let (k, r) ← match quoted? line with
    | some q => q
    | none =>
      if isPlainStart false line then
        let (k, r) := plainPart false line
        some (dropBlanksEnd k, r)
      else none
  match dropBlanks r with
  | ':' :: r => if atGap r then some (String.ofList k, r ++ cs.drop line.length) else none
  | _ => none

/-! ## Nodes -/

/-- A node that begins on a line after something else; what follows begins a line. -/
def inline (floor : Nat) (cs : List Char) : Option (Document × List Char) :=
  let ended (x : Option (Document × List Char)) : Option (Document × List Char) := do
    let (d, r) ← x
    (lineEnd? r).map fun r => (d, r)
  let block (folded : Bool) (r : List Char) : Option (Document × List Char) := do
    let (h, r) ← blockHeader? folded r
    let (s, r) ← blockScalar h floor r
    some (.text (String.ofList s), r)
  match cs with
  | '|' :: r => block false r
  | '>' :: r => block true r
  | '[' :: _ => ended (flowCollection cs)
  | '{' :: _ => ended (flowCollection cs)
  | cs => match quoted? cs with
    | some q => ended (q.map fun (s, r) => (.text (String.ofList s), r))
    | none =>
      if isPlainStart false cs then
        (plainLines floor (cs.length + 1) cs).map fun (s, r) => (.word (String.ofList s), r)
      else none

mutual

/-- A node at a cursor, inside a collection whose values start at the column `floor` or beyond. -/
def node : Nat → Nat → Cursor → Option (Document × List Char)
  | 0, _, _ => none
  | fuel + 1, floor, c =>
    if isItem c.rest then (items fuel c).map fun (ds, r) => (.list false ds, r)
    else if (key? c.rest).isSome then (entries fuel c).map fun (es, r) => (.record es, r)
    else inline floor c.rest

/-- A node on the lines that follow, which is empty when they are not indented to `floor`. -/
def nodeBelow : Nat → Nat → Reader Document
  | 0, _, _ => none
  | fuel + 1, floor, cs => do
    let c ← seek false 0 cs
    if c.rest = [] ∨ c.column < floor then some (.word "", c.line) else node fuel floor c

/-- The items of a list from its first mark on. -/
def items : Nat → Cursor → Option (List Document × List Char)
  | 0, _ => none
  | fuel + 1, c => do
    let r := c.rest.drop 1
    let after := r.dropWhile (· == ' ')
    if after.head? = some '\t' then none
    let (d, r) ← match lineEnd? after with
      | some r => nodeBelow fuel (c.column + 1) r
      | none => node fuel (c.column + 1) ⟨c.column + 1 + (r.length - after.length), after⟩
    let next ← seek false 0 r
    if next.column = c.column ∧ isItem next.rest then
      (items fuel next).map fun (ds, r) => (d :: ds, r)
    else some ([d], next.line)

/-- The entries of a record from its first key on. -/
def entries : Nat → Cursor → Option (List (String × Document) × List Char)
  | 0, _ => none
  | fuel + 1, c => do
    let (k, r) ← key? c.rest
    let (v, r) ← match lineEnd? r with
      | some r => do
        let below ← seek false 0 r
        if below.column = c.column ∧ isItem below.rest then
          (items fuel below).map fun (ds, r) => (Document.list false ds, r)
        else nodeBelow fuel (c.column + 1) r
      | none => inline (c.column + 1) (dropBlanks r)
    let next ← seek false 0 r
    if next.rest = [] ∨ next.column < c.column then some ([(k, v)], next.line)
    else if next.column = c.column then (entries fuel next).map fun (es, r) => ((k, v) :: es, r)
    else none

end

/-! ## Documents -/

/-- Line breaks of all kinds as one character. -/
def unifyBreaks : List Char → List Char
  | [] => []
  | '\r' :: '\n' :: r => '\n' :: unifyBreaks r
  | c :: r => (if c = '\r' ∨ c = '\u0085' then '\n' else c) :: unifyBreaks r

/-- Characters that a text may hold. -/
def isAllowed (c : Char) : Bool :=
  let n := c.toNat
  n == 9 || n == 10 || (0x20 ≤ n && n ≤ 0x7e) || (0xa0 ≤ n && n ≤ 0xfffd && n != 0xfeff) ||
    0x10000 ≤ n

/-- A line that begins a document or ends one. -/
def isMark (mark line : List Char) : Bool := mark.isPrefixOf line && atGap (line.drop 3)

def beginMark : List Char := ['-', '-', '-']

def endMark : List Char := ['.', '.', '.']

def isAnyMark (line : List Char) : Bool := isMark beginMark line || isMark endMark line

/-- Nothing but blanks and a comment. -/
def isIdle (line : List Char) : Bool :=
  let r := line.dropWhile (· == ' ')
  r.isEmpty || r.head? == some '#'

/-- Nothing follows a document but marks of its end. -/
def isEnd (lines : List (List Char)) : Bool :=
  lines.all fun l => isIdle l || (isMark endMark l && isIdle (l.drop 3))

/-- The lines up to the next mark, if nothing comes after it. -/
def lastLines? (lines : List (List Char)) : Option (List Char) :=
  let own := lines.takeWhile (!isAnyMark ·)
  let after := lines.dropWhile (!isAnyMark ·)
  if isEnd after then some (['\n'].intercalate (if after.isEmpty then own else own ++ [[]]))
  else none

/-- What is on the line of the mark that begins the document, and the lines after it. -/
def body? (lines : List (List Char)) : Option (List Char × List Char) :=
  match lines.dropWhile isIdle with
  | [] => none
  | l :: ls =>
    if isMark endMark l then none
    else if isMark beginMark l then (lastLines? ls).map fun r => (l.drop 3, r)
    else (lastLines? (l :: ls)).map fun r => ([], r)

/-- The document that a text holds. -/
def read? (s : String) : Option Document := do
  let cs := match s.toList with
    | '\ufeff' :: r => r
    | cs => cs
  let cs := unifyBreaks cs
  if !cs.all isAllowed then none
  let (first, r) ← body? (Text.pieces '\n' cs)
  let fuel := 4 * (cs.length + 1)
  let (d, r) ← match lineEnd? first with
    | some _ => nodeBelow fuel 0 r
    | none => inline 0 (dropBlanks first ++ '\n' :: r)
  let rest ← seek false 0 r
  if rest.rest = [] then some d else none

end Rulebook.Yaml
