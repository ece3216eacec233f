import Rulebook.ParseError
import Rulebook.Text.Bytes
import Rulebook.Text.Space
import Rulebook.Text.Split

/-!
# Cutting instructions at the top level

`pieces` cuts a text at a separator wherever that stands outside quotes, brackets and parentheses.
A double quote always opens a quotation; an apostrophe does so only where a token can begin, so that
it may stand inside a word, as in `O'Brien`.

    text = the texts of the pieces with the separator between them
-/

namespace Rulebook.TopLevel

open Text

structure Piece where
  /-- Byte position, counted from where the text begins. -/
  offset : Nat
  text : List Char
deriving DecidableEq, Repr

/-- A character that opened something, where it stands, and the text from there on. -/
structure Opening where
  char : Char
  position : Nat
  text : List Char

/-- What is known at one place of the text. -/
structure Scan where
  position : Nat
  /-- The last character before that is not white space. -/
  last : Option Char := none
  quote : Option Opening := none
  /-- Open brackets and parentheses, the innermost first. -/
  stack : List Opening := []
  /-- Characters of a separator still to be passed over. -/
  skip : Nat := 0
  /-- The piece so far, in reverse, and where it begins. -/
  piece : List Char := []
  start : Nat

/-- Whether a token can begin after this character. -/
def opensToken : Option Char → Bool
  | none => true
  | some c => ['(', '[', ',', '|', '=', '<', '>', '!'].contains c

namespace Scan

/-- Passes over a character that takes no part in the piece. -/
def pass (s : Scan) (c : Char) : Scan :=
  { s with
    position := s.position + c.utf8Size
    last := if isSpace c then s.last else some c }

/-- Takes a character into the piece. -/
def take (s : Scan) (c : Char) : Scan := { s.pass c with piece := c :: s.piece }

/-- The error about the opening that was never closed. -/
def endError (s : Scan) : Option ParseError :=
  match s.quote, s.stack with
  | some o, _ => some ⟨.unterminatedQuote, String.ofList o.text, o.position⟩
  | none, o :: _ =>
    let closing := if o.char = '(' then "')'" else "']'"
    some ⟨.unexpected closing "end of input", String.ofList o.text, o.position⟩
  | none, [] => none

end Scan

def closes (c : Char) (o : Opening) : Bool :=
  (c == ')' && o.char == '(') || (c == ']' && o.char == '[')

/-- One character and what follows it; a piece that ends before it is given back. -/
def step (separator : List Char) (s : Scan) (c : Char) (rest : List Char) :
    Except ParseError (Option Piece × Scan) :=
  let here : Opening := ⟨c, s.position, c :: rest⟩
  let on (s : Scan) : Except ParseError (Option Piece × Scan) := .ok (none, s.take c)
  if 0 < s.skip then .ok (none, { s.pass c with skip := s.skip - 1 })
  else match s.quote with
    | some o => on (if c = o.char then { s with quote := none } else s)
    | none =>
      if c = '"' ∨ (c = '\'' ∧ opensToken s.last) then on { s with quote := some here }
      else if c = '(' ∨ c = '[' then on { s with stack := here :: s.stack }
      else if c = ')' ∨ c = ']' then
        let unbalanced : ParseError :=
          ⟨.unexpected "balanced brackets" ("'" ++ String.ofList (c :: rest) ++ "'"),
            String.ofList (c :: rest), s.position⟩
        match s.stack with
        | o :: stack => if closes c o then on { s with stack } else .error unbalanced
        | [] => .error unbalanced
      else if s.stack.isEmpty && separator.isPrefixOf (c :: rest) then
        let next := s.position + Text.byteLength separator
        .ok (some ⟨s.start, s.piece.reverse⟩,
          { s.pass c with skip := separator.length - 1, piece := [], start := next })
      else on s

/-- The pieces from one place on. -/
def piecesFrom (separator : List Char) (s : Scan) : List Char → Except ParseError (List Piece)
  | [] => match s.endError with
    | some e => .error e
    | none => .ok [⟨s.start, s.piece.reverse⟩]
  | c :: rest => match step separator s c rest with
    | .error e => .error e
    | .ok (none, s) => piecesFrom separator s rest
    | .ok (some p, s) => match piecesFrom separator s rest with
      | .ok ps => .ok (p :: ps)
      | .error e => .error e

/-- The pieces of a text that begins at byte `base`. -/
def pieces (separator : List Char) (base : Nat) (text : List Char) :
    Except ParseError (List Piece) :=
  piecesFrom separator { position := base, start := base } text

end Rulebook.TopLevel
