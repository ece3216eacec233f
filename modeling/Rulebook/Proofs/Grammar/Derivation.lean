import Rulebook.Proofs.Grammar.Arguments
import Rulebook.Proofs.Grammar.Flags
import Rulebook.Rule.Token
import Rulebook.Sorting

/-!
# The grammar of rules

    chain     := unit (sign unit)*                      sign := '&&' | '||'
    unit      := bracket | '(' chain ')'
    bracket   := '[' operator? target? ('|' code arguments?)* ('-' flags)* ']'
    arguments := '(' (argument (',' argument)*)? ')'

A derivation is over the kinds of tokens and yields a `Shape`, which is a rule without its sources
and spans.  `ChainForm depth ks s` also says that parentheses nest at most `depth` deep in `ks`.

    one unit                    the shape of the unit
    units u₀ sign u₁ … uₙ       a node of one group: the first sign, and all the units in order
-/

namespace Rulebook

/-- A rule without its sources and spans. -/
inductive Shape where
  | bracket (operand : Operand) (target : Option Target) (modifiers : List Modifier)
      (active : ModifierFlags) (force : Bool)
  | node (groups : List (GroupOf Shape))

namespace Rule

mutual

def shape : Rule → Shape
  | .bracket b => .bracket b.operand b.target b.modifiers b.active b.force
  | .node _ _ groups => .node (groupShapes groups)

def groupShapes : List (GroupOf Rule) → List (GroupOf Shape)
  | [] => []
  | g :: gs => groupShape g :: groupShapes gs

def groupShape : GroupOf Rule → GroupOf Shape
  | ⟨join, members⟩ => ⟨join, memberShapes members⟩

def memberShapes : List Rule → List Shape
  | [] => []
  | r :: rs => shape r :: memberShapes rs

end

theorem memberShapes_eq_map (rs : List Rule) : memberShapes rs = rs.map shape := by
  induction rs with
  | nil => rfl
  | cons r rs ih => rw [memberShapes, ih, List.map_cons]

end Rule

namespace Grammar

open Text

/-! ## Brackets -/

/-- A target as written; the word `this` stands for the value under test. -/
inductive TargetForm : TokenKind → Target → Prop
  | quotedThis {text} : sameWord text "this" = true → TargetForm (.quoted text) .this
  | quoted {text} : sameWord text "this" = false → TargetForm (.quoted text) (.literal (.text text))
  | wordThis {text} : sameWord text "this" = true → TargetForm (.word text) .this
  | word {text} : sameWord text "this" = false →
      TargetForm (.word text) (.literal (.literal text))

/-- An operator and its target.  A target alone is compared for equality; there is no rule for an
operator alone. -/
inductive ComparisonForm : List TokenKind → Operand → Option Target → Prop
  | absent : ComparisonForm [] .none none
  | equal {k t} : TargetForm k t → ComparisonForm [k] .equal (some t)
  | operator {symbol op k t} : Operand.ofSymbol? symbol = some op → TargetForm k t →
      ComparisonForm [.operator symbol, k] op (some t)

inductive ArgumentForm : TokenKind → Argument → Prop
  | quoted {text} : ArgumentForm (.quoted text) ⟨text, true⟩
  | word {text} : ArgumentForm (.word text) ⟨text, false⟩

/-- One argument or more, with commas between them. -/
inductive ArgumentsForm : List TokenKind → List Argument → Prop
  | last {k a} : ArgumentForm k a → ArgumentsForm [k] [a]
  | cons {k a ks as} : ArgumentForm k a → ArgumentsForm ks as →
      ArgumentsForm (k :: .comma :: ks) (a :: as)

/-- What may follow a code. -/
inductive ArgumentListForm : List TokenKind → List Argument → Prop
  | absent : ArgumentListForm [] []
  | empty : ArgumentListForm [.openParen, .closeParen] []
  | filled {ks as} : ArgumentsForm ks as →
      ArgumentListForm (.openParen :: (ks ++ [.closeParen])) as

/-- Modifiers in the order in which they are written. -/
inductive ModifiersForm : List TokenKind → List Modifier → Prop
  | nil : ModifiersForm [] []
  | cons {word code ls args m ks ms} : lowerAscii word = ModifierCode.text code →
      ArgumentListForm ls args → Accepts code args m → ModifiersForm ks ms →
      ModifiersForm (.bar :: .word word :: (ls ++ ks)) (m :: ms)

/-- Flags: whether there are any.  The only letter is `f`, in either case. -/
inductive FlagsForm : List TokenKind → Bool → Prop
  | nil : FlagsForm [] false
  | cons {letters ks force} : (∀ c ∈ letters.toList, c = 'f' ∨ c = 'F') → FlagsForm ks force →
      FlagsForm (.dash :: .word letters :: ks) true

/-- The same modifiers in the order in which they are applied, none of them twice. -/
structure InOrder (written modifiers : List Modifier) : Prop where
  perm : modifiers.Perm written
  increasing : modifiers.Pairwise fun m m' => m.code.rank < m'.code.rank

theorem rank_injective {a b : ModifierCode} (h : a.rank = b.rank) : a = b := by
  have place : ∀ c : ModifierCode, ModifierCode.all[c.rank]? = some c := by
    intro c
    cases c <;> rfl
  exact Option.some.inj ((place a).symm.trans (h ▸ place b))

theorem InOrder.nodup {written modifiers : List Modifier} (h : InOrder written modifiers) :
    (written.map Modifier.code).Nodup := by
  refine (h.perm.map Modifier.code).nodup (List.pairwise_map.2 (h.increasing.imp fun hlt he => ?_))
  rw [he] at hlt
  exact Nat.lt_irrefl _ hlt

theorem sortOn_inOrder {written : List Modifier} (h : (written.map Modifier.code).Nodup) :
    InOrder written (sortOn (·.code.rank) written) where
  perm := sortOn_perm _ _
  increasing := by
    have hle := sortOn_pairwise (fun m : Modifier => (m.code.rank : Int)) written
    have hperm := sortOn_perm (fun m : Modifier => (m.code.rank : Int)) written
    have hne := List.pairwise_map.1 ((hperm.map Modifier.code).symm.nodup h)
    refine (hle.and hne).imp ?_
    rintro a b ⟨hr, hc⟩
    have : a.code.rank ≠ b.code.rank := fun he => hc (rank_injective he)
    omega

theorem InOrder.eq_sortOn {written modifiers : List Modifier} (h : InOrder written modifiers) :
    modifiers = sortOn (·.code.rank) written := by
  have hs := sortOn_inOrder h.nodup
  refine List.Perm.eq_of_pairwise ?_ h.increasing hs.increasing (h.perm.trans hs.perm.symm)
  intro a b _ _ hab hba
  omega

inductive BracketForm : List TokenKind → Shape → Prop
  | mk {cs op t ms written modifiers active fs force} : ComparisonForm cs op t →
      ModifiersForm ms written → InOrder written modifiers → active.IsUnion modifiers →
      FlagsForm fs force → BracketForm (.openBracket :: (cs ++ (ms ++ (fs ++ [.closeBracket]))))
        (.bracket op t modifiers active force)

/-! ## Chains -/

inductive SignForm : TokenKind → Join → Prop
  | and : SignForm .and .and
  | or : SignForm .or .or

mutual

/-- A bracket, or a chain in parentheses. -/
inductive UnitForm : Nat → List TokenKind → Shape → Prop
  | bracket {depth ks s} : BracketForm ks s → UnitForm depth ks s
  | parens {depth ks s} : ChainForm depth ks s →
      UnitForm (depth + 1) (.openParen :: (ks ++ [.closeParen])) s

/-- Units with signs between them; the first sign counts. -/
inductive ChainForm : Nat → List TokenKind → Shape → Prop
  | one {depth ks s} : UnitForm depth ks s → ChainForm depth ks s
  | more {depth ks s ls join s' links} : UnitForm depth ks s →
      LinksForm depth ls ((join, s') :: links) →
      ChainForm depth (ks ++ ls) (.node [⟨join, s :: s' :: links.map Prod.snd⟩])

/-- Units, each with the sign before it. -/
inductive LinksForm : Nat → List TokenKind → List (Join × Shape) → Prop
  | nil {depth} : LinksForm depth [] []
  | cons {depth k join ks s ls links} : SignForm k join → UnitForm depth ks s →
      LinksForm depth ls links → LinksForm depth (k :: (ks ++ ls)) ((join, s) :: links)

end

theorem UnitForm.head {depth : Nat} {ks : List TokenKind} {s : Shape} (h : UnitForm depth ks s) :
    ∃ k ls, ks = k :: ls ∧ (k = .openBracket ∨ k = .openParen) := by
  cases h with
  | bracket hb =>
    cases hb
    exact ⟨_, _, rfl, .inl rfl⟩
  | parens => exact ⟨_, _, rfl, .inr rfl⟩

theorem ChainForm.head {depth : Nat} {ks : List TokenKind} {s : Shape} (h : ChainForm depth ks s) :
    ∃ k ls, ks = k :: ls ∧ (k = .openBracket ∨ k = .openParen) := by
  cases h with
  | one hu => exact hu.head
  | more hu =>
    obtain ⟨k, ls, rfl, hk⟩ := hu.head
    exact ⟨k, _, rfl, hk⟩

theorem ChainForm.ne_nil {depth : Nat} {ks : List TokenKind} {s : Shape}
    (h : ChainForm depth ks s) : ks ≠ [] := by
  obtain ⟨k, ls, rfl, -⟩ := h.head
  exact List.cons_ne_nil k ls

/-- The text is a rule of this shape, with parentheses at most `depth` deep. -/
def Derives (depth : Nat) (text : String) (s : Shape) : Prop :=
  ∃ ts, Token.scan text = .ok ts ∧ ChainForm depth (ts.map Token.kind) s

end Grammar

end Rulebook
