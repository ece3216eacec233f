import Rulebook.Config
import Rulebook.Rule.Argument
import Rulebook.Rule.Token
import Rulebook.Sorting

/-!
# Reading rules

    chain    := unit (('&&' | '||') unit)*
    unit     := bracket | '(' chain ')'
    bracket  := '[' operator? target? ('|' code arguments?)* ('-' flags)* ']'

A chain of one unit is that unit.  A longer chain is a node of one group, joined in the way that the
first sign of the chain says.  Parentheses nest as deep as the configuration allows.

Each function below reads from the head of a token list and returns what it read with the number of
tokens it took.
-/

namespace Rulebook

/-- A rule text that is being read. -/
structure RuleSource where
  text : List Char
  /-- Length in bytes. -/
  size : Nat
  /-- Where the last token begins. -/
  tail : Nat

namespace RuleSource

def slice (s : RuleSource) (span : Span) : String :=
  String.ofList (Text.slice s.text span.start span.stop)

/-- Another token than `expected` was found. -/
def unexpected (s : RuleSource) (expected : String) (t : Token) : ParseError :=
  ⟨.unexpected expected t.kind.describe, s.slice t.span, t.span.start⟩

/-- The text ends where `expected` should follow. -/
def atEnd (s : RuleSource) (expected : String) : ParseError :=
  ⟨.unexpected expected "end of input", s.slice ⟨s.tail, s.size⟩, s.size⟩

/-- The error that what heads the tokens is not `expected`. -/
def missing (s : RuleSource) (expected : String) : List Token → ParseError
  | [] => s.atEnd expected
  | t :: _ => s.unexpected expected t

end RuleSource

namespace Rule

open TokenKind (openBracket closeBracket openParen closeParen bar comma dash)

/-- Where the first `n` tokens end. -/
def stopOf (ts : List Token) (n : Nat) : Nat :=
  match ts[n - 1]? with
  | some t => t.span.stop
  | none => 0

/-! ## Brackets -/

def readOperand (s : RuleSource) : List Token → Except ParseError (Option (Operand × Token) × Nat)
  | t :: _ => match t.kind with
    | .operator symbol => match Operand.ofSymbol? symbol with
      | some op => .ok (some (op, t), 1)
      | none => .error (s.unexpected "comparison operator" t)
    | _ => .ok (none, 0)
  | [] => .ok (none, 0)

/-- The target written by a literal; `this` is the value under test. -/
def targetOf (text : String) (v : Value) : Target :=
  if Text.sameWord text "this" then .this else .literal v

def readTarget : List Token → Option Target × Nat
  | t :: _ => match t.kind with
    | .quoted text => (some (targetOf text (.text text)), 1)
    | .word text => (some (targetOf text (.literal text)), 1)
    | _ => (none, 0)
  | [] => (none, 0)

/-- A target without operator is compared for equality; an operator needs a target. -/
def settleOperand (s : RuleSource) (operand : Option (Operand × Token)) (target : Option Target)
    (rest : List Token) : Except ParseError Operand :=
  match operand, target with
  | none, none => .ok .none
  | none, some _ => .ok .equal
  | some (op, _), some _ => .ok op
  | some (_, t), none => .error (s.unexpected "target after operator" (rest.head?.getD t))

def argumentOf (t : Token) : Option Argument :=
  match t.kind with
  | .quoted text => some ⟨text, true⟩
  | .word text => some ⟨text, false⟩
  | _ => none

/-- Arguments with commas between them, and the closing parenthesis. -/
def readArguments (s : RuleSource) : List Token → Except ParseError (List Argument × Nat)
  | [] => .error (s.atEnd "parameter")
  | [t] => match argumentOf t with
    | some _ => .error (s.atEnd "')'")
    | none => .error (s.unexpected "parameter" t)
  | t :: u :: rest => match argumentOf t with
    | none => .error (s.unexpected "parameter" t)
    | some a =>
      if u.kind = closeParen then .ok ([a], 2)
      else if u.kind = comma then
        match readArguments s rest with
        | .ok (as, n) => .ok (a :: as, n + 2)
        | .error e => .error e
      else .error (s.unexpected "',' or ')'" u)

/-- The arguments behind a code, if there is a parenthesis. -/
def readArgumentList (s : RuleSource) : List Token → Except ParseError (List Argument × Nat)
  | [] => .ok ([], 0)
  | t :: rest =>
    if t.kind = openParen then
      if (rest.head?.map Token.kind) = some closeParen then .ok ([], 2)
      else (readArguments s rest).map fun (as, n) => (as, n + 1)
    else .ok ([], 0)

/-- One modifier, without the bar before it, that is not `active` yet. -/
def readModifier (s : RuleSource) (active : ModifierFlags) :
    List Token → Except ParseError (Modifier × Nat)
  | [] => .error (s.atEnd "modifier code")
  | t :: rest => match t.kind with
    | .word code => do
      let (args, n) ← readArgumentList s rest
      let fragment := s.slice ⟨t.span.start, stopOf (t :: rest) (n + 1)⟩
      let m ← (Modifier.build code args).mapError (Modifier.Fault.error fragment t.span.start)
      if active.contains m.flag then
        .error ⟨.duplicateModifier m.code, fragment, t.span.start⟩
      else .ok (m, n + 1)
    | _ => .error (s.unexpected "modifier code" t)

/-- The modifiers of a bracket as written, and what is active after them; `active` is what was
before. -/
def readModifiers (s : RuleSource) (active : ModifierFlags) :
    List Token → Except ParseError (List Modifier × ModifierFlags × Nat)
  | [] => .ok ([], active, 0)
  | t :: rest =>
    if t.kind = bar then
      match readModifier s active rest with
      | .error e => .error e
      | .ok (m, n) =>
        match readModifiers s (active.union m.flag) (rest.drop n) with
        | .error e => .error e
        | .ok (ms, after, k) => .ok (m :: ms, after, n + k + 1)
    else .ok ([], active, 0)
termination_by ts => ts.length
decreasing_by
  simp only [List.length_cons, List.length_drop]
  omega

/-- The only flag is `f`. -/
def flagFault (word : String) : Option Char :=
  (word.toList.map Char.toLower).find? (· ≠ 'f')

/-- The flags of a bracket: whether modifiers are forced. -/
def readFlags (s : RuleSource) : List Token → Except ParseError (Bool × Nat)
  | [] => .ok (false, 0)
  | [t] => if t.kind = dash then .error (s.atEnd "flag") else .ok (false, 0)
  | t :: u :: rest =>
    if t.kind = dash then
      match u.kind with
      | .word flags => match flagFault flags with
        | some c => .error ⟨.unknownFlag c, flags, u.span.start⟩
        | none => match readFlags s rest with
          | .ok (_, n) => .ok (true, n + 2)
          | .error e => .error e
      | _ => .error (s.unexpected "flag" u)
    else .ok (false, 0)

/-- What stands between the opening and the closing bracket. -/
def readBracket (s : RuleSource) (opening : Token) (ts : List Token) :
    Except ParseError (Rule × Nat) := do
  let (op, n₁) ← readOperand s ts
  let (target, n₂) := readTarget (ts.drop n₁)
  let operand ← settleOperand s op target (ts.drop (n₁ + n₂))
  let (modifiers, active, n₃) ← readModifiers s .none (ts.drop (n₁ + n₂))
  let (force, n₄) ← readFlags s (ts.drop (n₁ + n₂ + n₃))
  let n := n₁ + n₂ + n₃ + n₄
  match ts.drop n with
  | t :: rest =>
    if t.kind = closeBracket then
      let span : Span := ⟨opening.span.start, t.span.stop⟩
      .ok (.bracket
        { source := s.slice span
          span
          operand
          target
          modifiers := sortOn (·.code.rank) modifiers
          active
          force }, n + 1)
    else .error (s.missing "']'" (t :: rest))
  | [] => .error (s.missing "']'" [])

/-! ## Chains -/

def joinOf : TokenKind → Option Join
  | .and => some .and
  | .or => some .or
  | _ => none

/-- The units after the first of a chain, each with the sign before it. -/
def readLinks (unit : List Token → Except ParseError (Rule × Nat)) :
    List Token → Except ParseError (List (Join × Rule) × Nat)
  | [] => .ok ([], 0)
  | t :: rest => match joinOf t.kind with
    | none => .ok ([], 0)
    | some j => match unit rest with
      | .error e => .error e
      | .ok (r, n) => match readLinks unit (rest.drop n) with
        | .error e => .error e
        | .ok (links, k) => .ok ((j, r) :: links, n + k + 1)
termination_by ts => ts.length
decreasing_by
  simp only [List.length_cons, List.length_drop]
  omega

/-- The rule of a chain that takes the span. -/
def ofChain (s : RuleSource) (span : Span) (first : Rule) : List (Join × Rule) → Rule
  | [] => first
  | (j, r) :: links => .node (s.slice span) span [⟨j, first :: r :: links.map Prod.snd⟩]

def readChain (s : RuleSource) (unit : List Token → Except ParseError (Rule × Nat))
    (ts : List Token) : Except ParseError (Rule × Nat) := do
  let (first, n) ← unit ts
  let (links, k) ← readLinks unit (ts.drop n)
  let start := (ts.head?.map (·.span.start)).getD 0
  return (ofChain s ⟨start, stopOf ts (n + k)⟩ first links, n + k)

/-- A bracket, or a chain in parentheses; `depth` parentheses may be open inside. -/
def readUnit (s : RuleSource) (limit : Nat) : Nat → List Token → Except ParseError (Rule × Nat)
  | _, [] => .error (s.atEnd "'[' or '('")
  | depth, t :: rest => match t.kind, depth with
    | .openBracket, _ => (readBracket s t rest).map fun (r, n) => (r, n + 1)
    | .openParen, 0 => .error ⟨.tooDeep limit, s.slice t.span, t.span.start⟩
    | .openParen, depth + 1 => do
      let (r, n) ← readChain s (readUnit s limit depth) rest
      match rest.drop n with
      | u :: rest' =>
        if u.kind = closeParen then .ok (r, n + 2) else .error (s.missing "')'" (u :: rest'))
      | [] => .error (s.missing "')'" [])
    | _, _ => .error (s.unexpected "'[' or '('" t)

/-! ## Whole texts -/

def sourceOf (text : String) (ts : List Token) : RuleSource :=
  let cs := text.toList
  ⟨cs, Text.byteLength cs, (ts.getLast?.map (·.span.start)).getD 0⟩

/-- The rule that a token list holds. -/
def ofTokens (limit : Nat) (text : String) (ts : List Token) : Except ParseError Rule := do
  let s := sourceOf text ts
  let (r, n) ← readChain s (readUnit s limit limit) ts
  match ts.drop n with
  | [] => .ok r
  | t :: _ => .error (s.unexpected "end of input" t)

/-- The rule that a text holds. -/
def compile (config : Config) (text : String) : Except ParseError Rule :=
  match Token.scan text with
  | .error e => .error e
  | .ok [] => .error ⟨.empty, text, 0⟩
  | .ok ts => ofTokens config.maxDepth text ts

end Rule

end Rulebook
