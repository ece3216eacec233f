import Rulebook.Proofs.Grammar.Derivation

/-!
# Brackets in rules

`walk p ks` follows the openings of a list of tokens from a place.  It stops where a bracket closes
what is not open, a comma stands outside brackets, or a quotation stands where no token can begin.

    ChainForm depth ks s  →  walk ⟨stack, opens⟩ ks = some ⟨stack, false⟩
-/

namespace Rulebook.Grammar

/-- Open brackets and parentheses, the innermost first, and whether a token can begin. -/
structure Place where
  stack : List Char
  opens : Bool

/-- The place after a token. -/
def advance (p : Place) : TokenKind → Option Place
  | .openBracket => some ⟨'[' :: p.stack, true⟩
  | .openParen => some ⟨'(' :: p.stack, true⟩
  | .closeBracket => if p.stack.head? = some '[' then some ⟨p.stack.tail, false⟩ else none
  | .closeParen => if p.stack.head? = some '(' then some ⟨p.stack.tail, false⟩ else none
  | .comma => if p.stack = [] then none else some ⟨p.stack, true⟩
  | .quoted _ => if p.opens then some ⟨p.stack, false⟩ else none
  | .or | .bar | .operator _ => some ⟨p.stack, true⟩
  | .and | .dash | .word _ => some ⟨p.stack, false⟩

def walk (p : Place) : List TokenKind → Option Place
  | [] => some p
  | k :: ks => (advance p k).bind (walk · ks)

variable {p : Place} {ks ls : List TokenKind} {k : TokenKind} {stack : List Char} {opens : Bool}

theorem walk_append : walk p (ks ++ ls) = (walk p ks).bind (walk · ls) := by
  induction ks generalizing p with
  | nil => rfl
  | cons k ks ih =>
    rw [List.cons_append, walk, walk, Option.bind_assoc]
    congr
    funext q
    exact ih

/-! ## Brackets -/

theorem TargetForm.advance {t : Target} (h : TargetForm k t) :
    advance ⟨stack, true⟩ k = some ⟨stack, false⟩ := by
  cases h <;> rfl

theorem ArgumentForm.advance {a : Argument} (h : ArgumentForm k a) :
    advance ⟨stack, true⟩ k = some ⟨stack, false⟩ := by
  cases h <;> rfl

/-- After the opening bracket, and after the comparison. -/
theorem ComparisonForm.walk {op : Operand} {target : Option Target}
    (h : ComparisonForm ks op target) (stack : List Char) :
    ∃ opens, walk ⟨stack, true⟩ ks = some ⟨stack, opens⟩ := by
  cases h with
  | absent => exact ⟨true, rfl⟩
  | equal ht => exact ⟨false, by simp [Grammar.walk, ht.advance]⟩
  | operator _ ht =>
    refine ⟨false, ?_⟩
    show (Grammar.advance ⟨stack, true⟩ _).bind (Grammar.walk · []) = _
    rw [ht.advance]
    rfl

theorem ArgumentsForm.walk {as : List Argument} (h : ArgumentsForm ks as) {stack : List Char}
    (hne : stack ≠ []) : walk ⟨stack, true⟩ ks = some ⟨stack, false⟩ := by
  induction h with
  | last ha => simp [Grammar.walk, ha.advance]
  | cons ha _ ih =>
    rw [Grammar.walk, ha.advance, Option.bind_some, Grammar.walk, Grammar.advance, if_neg hne]
    exact ih

theorem ArgumentListForm.walk {as : List Argument} (h : ArgumentListForm ks as)
    (stack : List Char) : walk ⟨stack, false⟩ ks = some ⟨stack, false⟩ := by
  cases h with
  | absent => rfl
  | empty => rfl
  | filled ha =>
    have hinner := ha.walk (List.cons_ne_nil '(' stack)
    rw [Grammar.walk, Grammar.advance, Option.bind_some, walk_append, hinner]
    rfl

theorem ModifiersForm.walk {ms : List Modifier} (h : ModifiersForm ks ms) (stack : List Char)
    (opens : Bool) : ∃ opens', walk ⟨stack, opens⟩ ks = some ⟨stack, opens'⟩ := by
  induction h generalizing opens with
  | nil => exact ⟨opens, rfl⟩
  | @cons word code ls args m ks ms _ hargs _ _ ih =>
    obtain ⟨opens', hks⟩ := ih false
    refine ⟨opens', ?_⟩
    show Grammar.walk ⟨stack, false⟩ (ls ++ ks) = _
    rw [walk_append, hargs.walk stack, Option.bind_some, hks]

theorem FlagsForm.walk {force : Bool} (h : FlagsForm ks force) (stack : List Char)
    (opens : Bool) : ∃ opens', walk ⟨stack, opens⟩ ks = some ⟨stack, opens'⟩ := by
  induction h generalizing opens with
  | nil => exact ⟨opens, rfl⟩
  | cons _ _ ih => exact ih false

theorem BracketForm.walk {s : Shape} (h : BracketForm ks s) (stack : List Char) (opens : Bool) :
    walk ⟨stack, opens⟩ ks = some ⟨stack, false⟩ := by
  cases h with
  | mk hc hm _ _ hf =>
    obtain ⟨o₁, h₁⟩ := hc.walk ('[' :: stack)
    obtain ⟨o₂, h₂⟩ := hm.walk ('[' :: stack) o₁
    obtain ⟨o₃, h₃⟩ := hf.walk ('[' :: stack) o₂
    rw [Grammar.walk, Grammar.advance, Option.bind_some, walk_append, h₁, Option.bind_some,
      walk_append, h₂, Option.bind_some, walk_append, h₃]
    rfl

/-! ## Chains -/

theorem SignForm.advance {join : Join} (h : SignForm k join) (stack : List Char) (opens : Bool) :
    ∃ opens', advance ⟨stack, opens⟩ k = some ⟨stack, opens'⟩ := by
  cases h
  · exact ⟨false, rfl⟩
  · exact ⟨true, rfl⟩

mutual

theorem UnitForm.walk {depth : Nat} {ks : List TokenKind} {s : Shape} :
    UnitForm depth ks s → ∀ stack opens, walk ⟨stack, opens⟩ ks = some ⟨stack, false⟩
  | .bracket hb, stack, opens => hb.walk stack opens
  | .parens hc, stack, opens => by
    have hinner := ChainForm.walk hc ('(' :: stack) true
    rw [Grammar.walk, Grammar.advance, Option.bind_some, walk_append, hinner]
    rfl

theorem ChainForm.walk {depth : Nat} {ks : List TokenKind} {s : Shape} :
    ChainForm depth ks s → ∀ stack opens, walk ⟨stack, opens⟩ ks = some ⟨stack, false⟩
  | .one hu, stack, opens => UnitForm.walk hu stack opens
  | .more hu hl, stack, opens => by
    rw [walk_append, UnitForm.walk hu stack opens, Option.bind_some, LinksForm.walk hl stack]

theorem LinksForm.walk {depth : Nat} {ks : List TokenKind} {links : List (Join × Shape)} :
    LinksForm depth ks links → ∀ stack, walk ⟨stack, false⟩ ks = some ⟨stack, false⟩
  | .nil, _ => rfl
  | .cons hk hu hl, stack => by
    obtain ⟨opens', hadvance⟩ := hk.advance stack false
    rw [Grammar.walk, hadvance, Option.bind_some, walk_append, UnitForm.walk hu stack opens',
      Option.bind_some, LinksForm.walk hl stack]

end

end Rulebook.Grammar
