import Rulebook.ParseError
import Rulebook.Rule.Basic
import Rulebook.Text.Split

/-!
# Tokens of rules

`[>="5"|mx(10)-f]&&[<"9"]` is read as

    [ >= "5" | mx ( 10 ) - f ] && [ < "9" ]

A hyphen before a digit or a point begins a word, and one before a digit continues it, so numbers
and dates are words.  Every token keeps its span; white space between tokens is skipped.
-/

namespace Rulebook

inductive TokenKind where
  | openBracket
  | closeBracket
  | openParen
  | closeParen
  | and
  | or
  | bar
  | comma
  /-- The hyphen before flags. -/
  | dash
  | operator (symbol : String)
  /-- The text between equal quotes. -/
  | quoted (text : String)
  | word (text : String)
deriving DecidableEq, Repr

/-- The token as shown in messages. -/
def TokenKind.describe : TokenKind → String
  | .openBracket => "'['"
  | .closeBracket => "']'"
  | .openParen => "'('"
  | .closeParen => "')'"
  | .and => "'&&'"
  | .or => "'||'"
  | .bar => "'|'"
  | .comma => "','"
  | .dash => "'-'"
  | .operator s => "operator '" ++ s ++ "'"
  | .quoted s => "literal \"" ++ s ++ "\""
  | .word s => "'" ++ s ++ "'"

structure Token where
  kind : TokenKind
  span : Span
deriving DecidableEq, Repr

namespace Token

open Text

/-- Characters that end a word. -/
def isSpecial (c : Char) : Bool :=
  ['[', ']', '(', ')', '|', ',', '"', '\'', '&', '=', '<', '>', '!'].contains c

def startsWith (p : Char → Bool) : List Char → Bool
  | [] => false
  | c :: _ => p c

/-- Number of characters that continue a word. -/
def wordLength : List Char → Nat
  | [] => 0
  | c :: cs =>
    let continues := if c = '-' then startsWith isDigit cs else !isSpace c && !isSpecial c
    if continues then wordLength cs + 1 else 0

def wordToken (c : Char) (rest : List Char) : TokenKind × Nat :=
  let n := wordLength rest
  (.word (String.ofList (c :: rest.take n)), n)

/-- The token that begins with `c`, and how many characters of the rest belong to it. -/
def lexeme (c : Char) (rest : List Char) : Except ParseCause (TokenKind × Nat) :=
  let followed (d : Char) : Bool := startsWith (· == d) rest
  match c with
  | '[' => .ok (.openBracket, 0)
  | ']' => .ok (.closeBracket, 0)
  | '(' => .ok (.openParen, 0)
  | ')' => .ok (.closeParen, 0)
  | ',' => .ok (.comma, 0)
  | '|' => if followed '|' then .ok (.or, 1) else .ok (.bar, 0)
  | '&' => if followed '&' then .ok (.and, 1) else .error (.unexpected "expression" "'&'")
  | '>' => if followed '=' then .ok (.operator ">=", 1) else .ok (.operator ">", 0)
  | '<' =>
    if followed '=' then .ok (.operator "<=", 1)
    else if followed '>' then .ok (.operator "<>", 1)
    else .ok (.operator "<", 0)
  | '!' => if followed '=' then .ok (.operator "!=", 1) else .error (.unexpected "expression" "'!'")
  | '=' => .ok (.operator "=", 0)
  | '-' =>
    if startsWith (fun d => isDigit d || d == '.') rest then .ok (wordToken c rest)
    else .ok (.dash, 0)
  | _ =>
    if c = '"' ∨ c = '\'' then
      match cutOnce c rest with
      | some (text, _) => .ok (.quoted (String.ofList text), text.length + 1)
      | none => .error .unterminatedQuote
    else .ok (wordToken c rest)

/-- The part of the source that an error at `c` is about. -/
def faultyText (c : Char) (rest : List Char) : ParseCause → String
  | .unterminatedQuote => String.ofList (c :: rest)
  | _ => String.singleton c

/-- The tokens of a text that begins at byte `position`. -/
def scanFrom (position : Nat) : List Char → Except ParseError (List Token)
  | [] => .ok []
  | c :: rest =>
    if isSpace c then scanFrom (position + c.utf8Size) rest
    else match lexeme c rest with
      | .error cause => .error ⟨cause, faultyText c rest cause, position⟩
      | .ok (kind, n) =>
        let stop := position + byteLength (c :: rest.take n)
        match scanFrom stop (rest.drop n) with
        | .ok ts => .ok (⟨kind, ⟨position, stop⟩⟩ :: ts)
        | .error e => .error e
termination_by cs => cs.length
decreasing_by
  · simp only [List.length_cons]
    omega
  · simp only [List.length_cons, List.length_drop]
    omega

/-- The tokens of a rule text. -/
def scan (source : String) : Except ParseError (List Token) := scanFrom 0 source.toList

end Token

end Rulebook
