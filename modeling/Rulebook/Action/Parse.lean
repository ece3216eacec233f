import Rulebook.Action.Basic
import Rulebook.Action.Split
import Rulebook.Rule.Parse

/-!
# Reading instructions

    instruction := action ('=>' action ('=>' action)?)?
    action      := '!'* NAME ('(' (param (',' param)*)? ')')?
    param       := quoted | '[' NAME '|' object '.' property ']' | rule | action | literal

Actions nest as deep as the configuration allows.  Every action keeps its text, without the white
space around it.
-/

namespace Rulebook

namespace Action

open Text

/-- Text `found` stands where `expected` should. -/
def unexpected (expected : String) (found : List Char) (position : Nat) : ParseError :=
  let found := String.ofList found
  ⟨.unexpected expected ("'" ++ found ++ "'"), found, position⟩

/-- The text without white space around it, and where that begins. -/
def trimFrom (position : Nat) (cs : List Char) : Nat × List Char :=
  let r := trimStart cs
  (position + (byteLength cs - byteLength r), trimEnd r)

/-- Takes the exclamation marks off an action: whether they negate it, and the rest. -/
def readMarks : List Char → Bool × List Char
  | [] => (false, [])
  | c :: cs =>
    if c = '!' then
      let (negative, r) := readMarks cs
      (!negative, r)
    else if isSpace c then readMarks cs
    else (false, c :: cs)

/-- `NAME(`, perhaps after exclamation marks. -/
def looksLikeAction (cs : List Char) : Bool :=
  match cutOnce '(' (trimStart (cs.dropWhile (· == '!'))) with
  | some (before, _) =>
    let name := trimEnd before
    name.all isWordChar && (name.head?.map isLetter).getD false
  | none => false

def isWord (cs : List Char) : Bool := !cs.isEmpty && cs.all isWordChar

/-- What stands between two characters at the ends. -/
def between? (opening closing : Char) (cs : List Char) : Option (List Char) :=
  (dropStart? [opening] cs).bind (dropLast? closing)

/-- `[target|object.property]`. -/
def reference? (cs : List Char) : Option Param := do
  let inner ← between? '[' ']' cs
  let (target, path) ← cutOnce '|' inner
  let (object, property) ← cutOnce '.' (trim path)
  if isWord (trim target) && isWord object && (pieces '.' property).all isWord then
    some (.reference (String.ofList object) (String.ofList property))
  else none

/-- A text between quotes that holds no such quote. -/
def readQuoted (quote : Char) (cs : List Char) (position : Nat) : Except ParseError Param :=
  match (dropLast? quote (cs.drop 1)).filter fun inner => !inner.contains quote with
  | some inner => .ok (.literal (.text (String.ofList inner)))
  | none => .error ⟨.unterminatedQuote, String.ofList cs, position⟩

/-- A reference or a rule. -/
def readBracketed (config : Config) (cs : List Char) (position : Nat) : Except ParseError Param :=
  match reference? cs with
  | some p => .ok p
  | none => match Rule.compile config (String.ofList cs) with
    | .ok r => .ok (.rule r)
    | .error e => .error { e with position := e.position + position }

/-- How the actions inside parameters are read, from their text and its position. -/
abbrev Nested := List Char → Nat → Except ParseError Action

/-- A parameter whose text is trimmed and not empty. -/
def readParam (config : Config) (nested : Nested) (cs : List Char) (position : Nat) :
    Except ParseError Param :=
  let first := cs.headD '\x00'
  if first = '"' ∨ first = '\'' then readQuoted first cs position
  else if first = '[' ∨ first = '(' then readBracketed config cs position
  else if looksLikeAction cs then (nested cs position).map .action
  else .ok (.literal (.literal (String.ofList cs)))

/-- The parameters that the pieces hold. -/
def readPieces (config : Config) (nested : Nested) (kind : ActionKind) :
    List TopLevel.Piece → Except ParseError (List Param)
  | [] => .ok []
  | p :: ps => do
    let (position, cs) := trimFrom p.offset p.text
    if cs.isEmpty then
      .error (unexpected ("parameter of '" ++ kind.name ++ "'") p.text p.offset)
    else
      let param ← readParam config nested cs position
      let params ← readPieces config nested kind ps
      return param :: params

def readParams (config : Config) (nested : Nested) (kind : ActionKind) (inner : List Char)
    (position : Nat) : Except ParseError (List Param) :=
  if isBlank inner then .ok []
  else do readPieces config nested kind (← TopLevel.pieces [','] position inner)

/-- The parameters in the text after a name: none, or those in the parentheses. -/
def readParamList (config : Config) (nested : Nested) (kind : ActionKind) (afterName : List Char)
    (position : Nat) : Except ParseError (List Param) :=
  if isBlank afterName then .ok []
  else
    let (position, args) := trimFrom position afterName
    match between? '(' ')' args with
    | none => .error (unexpected "'(' parameters ')'" args position)
    | some inner => readParams config nested kind inner (position + 1)

def isAction : Param → Bool
  | .action _ => true
  | _ => false

/-- The first place that must hold an action and does not. -/
def misplaced? (kind : ActionKind) (params : List Param) : Option Nat :=
  (kind.actionPlaces params.length).find? fun i => !(params[i]?.map isAction).getD false

/-- An action whose text is trimmed and not empty. -/
def readBody (config : Config) (nested : Nested) (body : List Char) (position : Nat) :
    Except ParseError Action := do
  let (negative, rest) := readMarks body
  let restPosition := position + (byteLength body - byteLength rest)
  let name := rest.takeWhile isWordChar
  if name.isEmpty then .error (unexpected "action name" rest restPosition)
  match ActionKind.ofName? (String.ofList name) with
  | none => .error ⟨.unknownAction (String.ofList name), String.ofList name, restPosition⟩
  | some kind =>
    let params ← readParamList config nested kind (rest.drop name.length)
      (restPosition + byteLength name)
    let source := String.ofList body
    if !kind.admits params.length then
      .error ⟨.wrongCount kind params.length, source, position⟩
    match misplaced? kind params with
    | some index => .error ⟨.expectedAction kind index, source, position⟩
    | none =>
      return { kind, name := String.ofList name, params, negative, isTest := false, source }

/-- The action in a text, with fewer than `levels` actions around the innermost. -/
def read (config : Config) : Nat → Nested
  | 0, cs, position => .error ⟨.tooDeep config.maxDepth, String.ofList cs, position⟩
  | levels + 1, cs, position =>
    let (start, body) := trimFrom position cs
    if body.isEmpty then .error ⟨.empty, String.ofList cs, position⟩
    else readBody config (read config levels) body start

end Action

namespace Instruction

/-- The actions that the parts of a chain hold. -/
def readParts (config : Config) : List TopLevel.Piece → Except ParseError (List Action)
  | [] => .ok []
  | p :: ps => do
    let a ← Action.read config (config.maxDepth + 1) p.text p.offset
    let as ← readParts config ps
    return a :: as

/-- The instruction of a chain of actions; `rest` is the text from the fourth part on. -/
def ofChain (actions : List Action) (rest : ParseError) : Except ParseError Instruction :=
  match actions with
  | [a] => .ok (.action a)
  | [c, t] => .ok (.test { c with isTest := true } t none)
  | [c, t, e] => .ok (.test { c with isTest := true } t (some e))
  | _ => .error rest

/-- The instruction that a text holds. -/
def parse (config : Config) (text : String) : Except ParseError Instruction :=
  let cs := text.toList
  if Text.isBlank cs then .error ⟨.empty, text, 0⟩
  else do
    let parts ← TopLevel.pieces ['=', '>'] 0 cs
    let actions ← readParts config parts
    let fourth := (parts[3]?.map (·.offset)).getD 0
    ofChain actions ⟨.chainTooLong, String.ofList (Text.dropBytes fourth cs), fourth⟩

end Instruction

end Rulebook
