import Rulebook.Proofs.Action.Cutting
import Rulebook.Proofs.Grammar.Balance
import Rulebook.Proofs.Grammar.Lexing

/-!
# Rules among pieces

Cutting a text at commas or at arrows passes over each token of a rule as `advance` does over its
kind, so a rule is never cut:

    Whole rule                                                     (whole_rule)
    pieces ['=', '>'] position NAME(rule)    is one piece          (pieces_call)

A text is `Whole` when it is taken whole by a scan that may cut at commas.
-/

namespace Rulebook

open Text

namespace TopLevel

open Grammar Token

variable {sep cs rest base : List Char} {s : Scan} {p q : Place} {k : TokenKind}
  {ks : List TokenKind}

/-- Where a separator may be met at most at a comma. -/
def CutsAtCommas (sep base : List Char) : Prop := base ≠ [] ∨ sep = [',']

theorem CutsAtCommas.uncut (h : CutsAtCommas sep base) {c : Char} {stack : List Char}
    (hc : c = ',' → stack ≠ []) : Uncut sep (stack ++ base) c := by
  by_cases hstack : stack = []
  · rcases h with hbase | hsep
    · exact .inl (by simp [hbase])
    · right
      intro rest
      have hne : ',' ≠ c := fun he => hc he.symm hstack
      simp [hsep, List.isPrefixOf, hne]
  · exact .inl (by simp [hstack])

/-- The characters that are read in a way of their own. -/
def marks : List Char := ['"', '\'', '(', '[', ')', ']', ',']

theorem not_mem_marks {c : Char} (h : isSpecial c = false) : c ∉ marks := by
  intro hm
  simp only [marks, List.mem_cons, List.not_mem_nil, or_false] at hm
  rcases hm with rfl | rfl | rfl | rfl | rfl | rfl | rfl <;> exact absurd h (by decide)

theorem isPlain_of_not_mem_marks {c : Char} (h : c ∉ marks) : IsPlain c := by
  intro hm
  simp only [List.mem_cons, List.not_mem_nil, or_false] at hm
  rcases hm with rfl | rfl | rfl | rfl | rfl | rfl <;> exact h (by decide)

theorem takes_space (h : CutsAtCommas sep base) {c : Char} {stack : List Char} {opens : Bool}
    (hc : isSpace c = true) (hready : Ready s (stack ++ base) opens) :
    Takes sep s [c] rest (stack ++ base) opens := by
  have hmarks : c ∉ marks := not_mem_marks (isSpecial_of_isSpace hc)
  refine takes_plain (isPlain_of_not_mem_marks hmarks) (h.uncut ?_) hready (by simp [hc])
  rintro rfl
  exact absurd hmarks (by decide)

/-- A character that is neither white space nor a mark. -/
theorem takes_char (h : CutsAtCommas sep base) {c : Char} {stack : List Char} {opens opens' : Bool}
    (hc : c ∉ marks) (hspace : isSpace c = false)
    (hopens : opens' = true → opensToken (some c) = true)
    (hready : Ready s (stack ++ base) opens) : Takes sep s [c] rest (stack ++ base) opens' := by
  refine takes_plain (isPlain_of_not_mem_marks hc) (h.uncut ?_) hready (by simpa [hspace])
  rintro rfl
  exact absurd hc (by decide)

theorem takes_pair (h : CutsAtCommas sep base) {c d : Char} {stack : List Char}
    {opens opens' : Bool} (hc : c ∉ marks) (hspace : isSpace c = false) (hd : d ∉ marks)
    (hspace' : isSpace d = false) (hopens : opens' = true → opensToken (some d) = true)
    (hready : Ready s (stack ++ base) opens) :
    Takes sep s [c, d] rest (stack ++ base) opens' := by
  have hfirst : Takes sep s [c] ([d] ++ rest) (stack ++ base) false :=
    takes_char h hc hspace (by simp) hready
  exact hfirst.append fun s' hs' => takes_char h hd hspace' hopens hs'

theorem takes_unmarked {stack : List Char} {opens : Bool} (hcut : ∀ c ∈ cs, Uncut sep stack c)
    (hcs : ∀ c ∈ cs, c ∉ marks) (hready : Ready s stack opens) :
    Takes sep s cs rest stack false := by
  induction cs generalizing s opens with
  | nil => exact .nil hready.weaken
  | cons c cs ih =>
    have hplain : IsPlain c := isPlain_of_not_mem_marks (hcs c (by simp))
    have hc : Takes sep s [c] (cs ++ rest) stack false :=
      takes_plain hplain (hcut c (by simp)) hready (by simp)
    exact hc.append fun s' hs' =>
      ih (fun d hd => hcut d (by simp [hd])) (fun d hd => hcs d (by simp [hd])) hs'

theorem takes_word {stack : List Char} {opens : Bool} (hcut : ∀ c ∈ cs, Uncut sep stack c)
    (hcs : ∀ c ∈ cs, isSpace c = false ∧ isSpecial c = false) (hready : Ready s stack opens) :
    Takes sep s cs rest stack false :=
  takes_unmarked hcut (fun c hc => not_mem_marks (hcs c hc).2) hready

theorem takes_operator (h : CutsAtCommas sep base) {symbol : String}
    (hmem : symbol ∈ ["=", "!=", "<>", "<", ">", "<=", ">="]) {stack : List Char} {opens : Bool}
    (hready : Ready s (stack ++ base) opens) :
    Takes sep s symbol.toList rest (stack ++ base) true := by
  simp only [List.mem_cons, List.not_mem_nil, or_false] at hmem
  rcases hmem with rfl | rfl | rfl | rfl | rfl | rfl | rfl
  · exact takes_char h (by decide) (by decide) (fun _ => rfl) hready
  · exact takes_pair h (by decide) (by decide) (by decide) (by decide) (fun _ => rfl) hready
  · exact takes_pair h (by decide) (by decide) (by decide) (by decide) (fun _ => rfl) hready
  · exact takes_char h (by decide) (by decide) (fun _ => rfl) hready
  · exact takes_char h (by decide) (by decide) (fun _ => rfl) hready
  · exact takes_pair h (by decide) (by decide) (by decide) (by decide) (fun _ => rfl) hready
  · exact takes_pair h (by decide) (by decide) (by decide) (by decide) (fun _ => rfl) hready

/-- Passing over a token does what `advance` does over its kind. -/
theorem takes_token (h : CutsAtCommas sep base) (hk : Spelled k cs) (hq : advance p k = some q)
    (hready : Ready s (p.stack ++ base) p.opens) :
    Takes sep s cs rest (q.stack ++ base) q.opens := by
  obtain ⟨stack, opens⟩ := p
  cases hk with
  | openBracket =>
    cases hq
    exact takes_open (.inr rfl) hready
  | openParen =>
    cases hq
    exact takes_open (.inl rfl) hready
  | closeBracket =>
    simp only [advance] at hq
    split at hq
    · next hhead =>
      cases hq
      obtain ⟨stack, rfl⟩ := List.head?_eq_some_iff.1 hhead
      exact takes_close (c := '[') (.inr rfl) hready
    · cases hq
  | closeParen =>
    simp only [advance] at hq
    split at hq
    · next hhead =>
      cases hq
      obtain ⟨stack, rfl⟩ := List.head?_eq_some_iff.1 hhead
      exact takes_close (c := '(') (.inl rfl) hready
    · cases hq
  | comma =>
    simp only [advance] at hq
    split at hq
    · cases hq
    · next hne =>
      cases hq
      exact takes_plain (by simp [IsPlain]) (h.uncut fun _ => hne) hready fun _ => rfl
  | and =>
    cases hq
    exact takes_pair h (by decide) (by decide) (by decide) (by decide) (by simp) hready
  | or =>
    cases hq
    exact takes_pair h (by decide) (by decide) (by decide) (by decide) (fun _ => rfl) hready
  | bar =>
    cases hq
    exact takes_char h (by decide) (by decide) (fun _ => rfl) hready
  | dash =>
    cases hq
    exact takes_char h (by decide) (by decide) (by simp) hready
  | operator hmem =>
    cases hq
    exact takes_operator h hmem hready
  | quoted hc hnot =>
    cases opens with
    | false => cases hq
    | true =>
      -- the walk lets a quotation stand only where a quote opens one
      cases hq
      exact takes_quoted hc hnot hready
  | word hcs =>
    cases hq
    refine takes_word (fun c hc => h.uncut ?_) hcs hready
    rintro rfl
    exact absurd (hcs ',' hc).2 (by decide)

/-- A text is taken whole when its tokens can be walked over. -/
theorem takes_lexes (h : CutsAtCommas sep base) (hlex : Lexes cs ks) (hq : walk p ks = some q)
    (hready : Ready s (p.stack ++ base) p.opens) :
    Takes sep s cs rest (q.stack ++ base) q.opens := by
  induction hlex generalizing s p with
  | nil =>
    cases hq
    exact .nil hready
  | @space c cs ks hc _ ih =>
    have hfirst : Takes sep s [c] (cs ++ rest) (p.stack ++ base) p.opens :=
      takes_space h hc hready
    exact hfirst.append fun s' hs' => ih hq hs'
  | @token c cs k n ks hc hk _ ih =>
    obtain ⟨-, hspelled⟩ := lexeme_spelled hc hk
    obtain ⟨p', hp', hq⟩ := Option.bind_eq_some_iff.1 hq
    have hfirst : Takes sep s (c :: cs.take n) (cs.drop n ++ rest) (p'.stack ++ base) p'.opens :=
      takes_token h hspelled hp' hready
    have hwhole := hfirst.append fun s' hs' => ih hq hs'
    rwa [List.cons_append, List.take_append_drop] at hwhole

/-! ## Whole texts -/

/-- A text that is taken whole where it is cut at commas at most. -/
def Whole (cs : List Char) : Prop :=
  ∀ (sep base rest : List Char) (s : Scan), CutsAtCommas sep base → Ready s base true →
    Takes sep s cs rest base false

theorem whole_of_unmarked (h : ∀ c ∈ cs, c ∉ marks) : Whole cs := by
  intro sep base rest s hcuts hready
  have hcut : ∀ c ∈ cs, Uncut sep ([] ++ base) c := by
    refine fun c hc => hcuts.uncut ?_
    rintro rfl
    exact absurd (h ',' hc) (by decide)
  exact takes_unmarked hcut h hready

theorem whole_quoted (h : '"' ∉ cs) : Whole ('"' :: (cs ++ ['"'])) :=
  fun _ _ _ _ _ hready => takes_quoted (.inl rfl) h hready

theorem ready_start (position : Nat) : Ready { position, start := position } [] true :=
  ⟨rfl, rfl, rfl, fun _ => rfl⟩

/-- In the parentheses of a call it may hold arrows. -/
theorem Whole.pieces_call {name : List Char} (h : Whole cs)
    (hname : ∀ c ∈ name, isWordChar c = true) (position : Nat) :
    TopLevel.pieces ['=', '>'] position (name ++ ('(' :: (cs ++ [')']))) =
      .ok [⟨position, name ++ ('(' :: (cs ++ [')']))⟩] := by
  have hcut : ∀ c ∈ name, Uncut ['=', '>'] [] c := by
    intro c hc
    right
    intro rest
    have hne : '=' ≠ c := by
      rintro rfl
      exact absurd (hname '=' hc) (by decide)
    simp [List.isPrefixOf, hne]
  have hinside : ∀ s₁, Ready s₁ [] false →
      Takes ['=', '>'] s₁ (['('] ++ (cs ++ [')'])) [] [] false := by
    intro s₁ hs₁
    have hopen : Takes ['=', '>'] s₁ ['('] (cs ++ [')'] ++ []) ['('] true :=
      takes_open (.inl rfl) hs₁
    refine hopen.append fun s₂ hs₂ => ?_
    have hwhole : Takes ['=', '>'] s₂ cs ([')'] ++ []) ['('] false :=
      h _ _ _ s₂ (.inl (List.cons_ne_nil '(' [])) hs₂
    exact hwhole.append fun s₃ hs₃ => takes_close (c := '(') (.inl rfl) hs₃
  have hplain : ∀ c ∈ name, isSpace c = false ∧ isSpecial c = false := by
    intro c hc
    obtain ⟨hspace, hspecial, -⟩ := IsNameChar.plain (.inl (hname c hc))
    exact ⟨hspace, hspecial⟩
  have hword : Takes ['=', '>'] { position, start := position } name
      (['('] ++ (cs ++ [')']) ++ []) [] false := takes_word hcut hplain (ready_start position)
  exact pieces_of_takes (hword.append hinside)

theorem whole_rule {depth : Nat} {shape : Shape} (hlex : Lexes cs ks)
    (hchain : ChainForm depth ks shape) : Whole cs :=
  fun _ _ _ _ hcuts hready => takes_lexes hcuts hlex (hchain.walk [] true) hready

/-- The call of a name on a rule is one piece between arrows. -/
theorem pieces_call {depth : Nat} {shape : Shape} {name : List Char} (hlex : Lexes cs ks)
    (hchain : ChainForm depth ks shape) (hname : ∀ c ∈ name, isWordChar c = true)
    (position : Nat) :
    pieces ['=', '>'] position (name ++ ('(' :: (cs ++ [')']))) =
      .ok [⟨position, name ++ ('(' :: (cs ++ [')']))⟩] :=
  (whole_rule hlex hchain).pieces_call hname position

end TopLevel

end Rulebook
