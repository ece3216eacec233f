import Rulebook.Proofs.Decimal.Order
import Rulebook.Proofs.Decimal.Read
import Rulebook.Proofs.Evaluation.Unforced
import Rulebook.Proofs.Value.Numbers

/-!
# Integers in ranges

What rules with a limit decide on an integer, from the text of the rule on:

    [<=l]        n ≤ l
    [|mx(l)]     near n ≤ near l
    [|b(l,h)]    near l ≤ near n  and  near n ≤ near h

where `near n` is the number of the decimal nearest to `n`.  A comparison is one of integers; a
modifier takes the value and its limits as decimals.
-/

namespace Rulebook

open Text Token Grammar Decimal

/-! ## Texts of one bracket -/

/-- The text is a rule that is evaluated on the value without an error, and passes it just when `p`
holds. -/
def Rule.PassesIff (config : Config) (ev : Evaluator) (text : String) (v : Value) (p : Prop) :
    Prop :=
  ∃ r o, Rule.compile config text = .ok r ∧ r.evaluate ev v = .ok o ∧ (o.passed = true ↔ p)

section
variable {text : String} {ks : List TokenKind} {cs : List Char} {z : Int}

/-- A text of one bracket is compiled to a bracket. -/
theorem exists_bracket (config : Config) {op : Operand} {target : Option Target}
    {ms : List Modifier} {active : ModifierFlags} {force : Bool} (hlex : Lexes text.toList ks)
    (hform : BracketForm ks (.bracket op target ms active force)) :
    ∃ b : Bracket, Rule.compile config text = .ok (.bracket b) ∧ b.operand = op ∧
      b.target = target ∧ b.modifiers = ms ∧ b.force = force := by
  have hderives : Derives config.maxDepth text (.bracket op target ms active force) :=
    derives_iff_lexes.2 ⟨ks, hlex, .one (.bracket hform)⟩
  obtain ⟨r, hr, hshape⟩ := compile_complete hderives
  cases r with
  | bracket b =>
    cases hshape
    exact ⟨b, hr, rfl, rfl, rfl, rfl⟩
  | node => cases hshape

/-- The operators of two characters that end in an equals sign. -/
theorem lexes_comparison {c : Char} {symbol : String} (hspace : isSpace c = false)
    (hc : ∀ rest, lexeme c ('=' :: rest) = .ok (.operator symbol, 1)) (hl : Spells cs z) :
    Lexes ('[' :: c :: '=' :: (cs ++ [']']))
      [.openBracket, .operator symbol, .word (String.ofList cs), .closeBracket] := by
  have hclose : Lexes [']'] [.closeBracket] := .token (by decide) rfl .nil
  exact .token (by decide) rfl (.token hspace (hc _) (.spells hl (by decide) hclose))

/-- One modifier with arguments. -/
theorem lexes_modifier {code : List Char} (hne : code ≠ []) (hcode : ∀ c ∈ code, IsNameChar c)
    (harguments : Lexes (cs ++ [')', ']']) (ks ++ [.closeParen, .closeBracket])) :
    Lexes ('[' :: '|' :: (code ++ '(' :: (cs ++ [')', ']'])))
      (.openBracket :: .bar :: .word (String.ofList code) :: .openParen ::
        (ks ++ [.closeParen, .closeBracket])) := by
  have hparen : Lexes ('(' :: (cs ++ [')', ']']))
      (.openParen :: (ks ++ [.closeParen, .closeBracket])) := .token (by decide) rfl harguments
  have hbar : lexeme '|' (code ++ '(' :: (cs ++ [')', ']'])) = .ok (.bar, 0) := by
    obtain ⟨c, code, rfl⟩ := List.exists_cons_of_ne_nil hne
    have hc : c ≠ '|' := by
      rintro rfl
      exact absurd (hcode '|' List.mem_cons_self).plain.2.1 (by decide)
    exact if_neg (by simpa [startsWith] using hc)
  exact .token (by decide) rfl (.token (by decide) hbar
    (.name hne hcode (wordLength_eq_zero (.inr (by decide))) hparen))

theorem lexes_close : Lexes [')', ']'] [.closeParen, .closeBracket] :=
  .token (by decide) rfl (.token (by decide) rfl .nil)

end

/-! ## Brackets without force -/

namespace Bracket

variable {b : Bracket} {v w : Value} {m : Modifier} {lookup : Option Lookup} {p q : Bool}

theorem testOperand_literal (h : b.target = some (.literal w)) : Answers b.testOperand v
    (.ok (b.operand.holds (Value.compareLoose (b.has .ignoreCase) v w))) := by
  have hcomparand : b.comparand v = some w := by rw [comparand, h]
  refine Answers.value.bind ?_
  rw [hcomparand]
  dsimp only
  split
  · next hp =>
    rw [hp]
    exact .pure
  · next hp =>
    rw [Bool.eq_false_iff.2 hp]
    exact .fail

theorem testOperand_absent (h : b.target = none) : Answers b.testOperand v (.ok true) := by
  have hcomparand : b.comparand v = none := by rw [comparand, h]
  refine Answers.value.bind ?_
  rw [hcomparand]
  exact .pure

theorem testModifier_of_check {P : Prop} [Decidable P] {kind : FailureKind} {detail : String}
    (h : m.check ⟨b.force, b.has .ignoreCase, lookup⟩ v =
      .ok (if P then .pass else .fail kind detail)) :
    Answers (b.testModifier lookup m) v (.ok (decide P)) := by
  refine Answers.value.bind ?_
  rw [h]
  by_cases hp : P
  · rw [if_pos hp, decide_eq_true hp]
    exact .pure
  · rw [if_neg hp, decide_eq_false hp]
    exact .fail

theorem exists_evaluation {ev : Evaluator} (hoperand : Answers b.testOperand v (.ok p))
    (hmodifiers : Answers (b.testModifiers ev.lookup b.modifiers) v (.ok q)) :
    ∃ o, (Rule.bracket b).evaluate ev v = .ok o ∧ o.passed = (p && q) := by
  have htest : Answers (b.test ev.lookup) v (.ok (p && q)) := hoperand.bind (hmodifiers.bind .pure)
  obtain ⟨ds, hds⟩ := htest []
  exact ⟨⟨p && q, v, ds⟩, by rw [Rule.evaluate_eq, Rule.test, hds]; rfl, rfl⟩

end Bracket

/-! ## Integers within limits -/

namespace Modifier

variable {s : CheckSetting} {x : Float} {l h n : Int64}

theorem check_max_integer (hforce : s.force = false) (hfinite : isFinite x = true)
    (hx : exact x = near l) : ∃ detail, check (.max x) s (.integer n) =
      .ok (if near n ≤ near l then .pass else .fail .exceedsMax detail) := by
  obtain ⟨force, ignoreCase, lookup⟩ := s
  cases hforce
  have hle := le_iff (isNearest_toInt n).finite hfinite
  rw [hx] at hle
  exact ⟨_, congrArg Except.ok (if_congr hle rfl rfl)⟩

theorem check_min_integer (hforce : s.force = false) (hfinite : isFinite x = true)
    (hx : exact x = near l) : ∃ detail, check (.min x) s (.integer n) =
      .ok (if near l ≤ near n then .pass else .fail .belowMin detail) := by
  obtain ⟨force, ignoreCase, lookup⟩ := s
  cases hforce
  have hle := le_iff hfinite (isNearest_toInt n).finite
  rw [hx] at hle
  exact ⟨_, congrArg Except.ok (if_congr hle rfl rfl)⟩

theorem check_between_integers (hforce : s.force = false) : ∃ detail,
    check (.between (.integer l) (.integer h)) s (.integer n) =
      .ok (if near l ≤ near n ∧ near n ≤ near h then .pass else .fail .outOfRange detail) := by
  obtain ⟨force, ignoreCase, lookup⟩ := s
  cases hforce
  have hle : (ofInt l.toInt ≤ ofInt n.toInt && ofInt n.toInt ≤ ofInt h.toInt) = true ↔
      near l ≤ near n ∧ near n ≤ near h := by
    rw [Bool.and_eq_true, decide_eq_true_iff, decide_eq_true_iff,
      le_iff (isNearest_toInt l).finite (isNearest_toInt n).finite,
      le_iff (isNearest_toInt n).finite (isNearest_toInt h).finite]
    rfl
  have hcheck : ∃ detail, check (.between (.integer l) (.integer h)) ⟨false, ignoreCase, lookup⟩
      (.integer n) = if (ofInt l.toInt ≤ ofInt n.toInt && ofInt n.toInt ≤ ofInt h.toInt) = true
        then .ok .pass else .ok (.fail .outOfRange detail) := ⟨_, rfl⟩
  obtain ⟨detail, hdetail⟩ := hcheck
  exact ⟨detail, by rw [hdetail, if_congr hle rfl rfl, apply_ite Except.ok]⟩

end Modifier

namespace Rule

variable {config : Config} {ev : Evaluator} {text l h : String} {v : Value} {low high n : Int64}

theorem literal_numeral (hl : int64? l.toList = some low) : Value.literal l = .integer low := by
  rw [← Value.literal_of_int64? hl, String.ofList_toList]

theorem targetForm_integer (hl : int64? l.toList = some low) :
    TargetForm (.word l) (.literal (.integer low)) := by
  obtain ⟨c, cs, hcs, hc⟩ := Value.exists_cons_of_spells (spells_of_int64? hl)
  have hthis : sameWord l "this" = false := by
    rw [← String.ofList_toList (s := l), hcs]
    exact sameWord_eq_false hc (by decide)
  rw [← literal_numeral hl]
  exact .word hthis

/-- A comparison of two characters with an integer. -/
theorem passesIff_comparison {c : Char} {symbol : String} {op : Operand}
    (hspace : isSpace c = false)
    (hc : ∀ rest, lexeme c ('=' :: rest) = .ok (.operator symbol, 1))
    (hop : Operand.ofSymbol? symbol = some op) (hl : int64? l.toList = some low)
    (htext : text.toList = '[' :: c :: '=' :: (l.toList ++ [']'])) :
    ∃ ignoreCase, PassesIff config ev text (.integer n)
      (op.holds (Value.compareLoose ignoreCase (.integer n) (.integer low)) = true) := by
  have hlex := lexes_comparison hspace hc (spells_of_int64? hl)
  rw [← htext, String.ofList_toList] at hlex
  have hform : BracketForm [.openBracket, .operator symbol, .word l, .closeBracket]
      (.bracket op (some (.literal (.integer low))) [] .none false) :=
    .mk (.operator hop (targetForm_integer hl)) .nil ⟨.nil, .nil⟩
      ModifierFlags.isUnion_none .nil
  obtain ⟨b, hb, hop, htarget, hmodifiers, -⟩ := exists_bracket config hlex hform
  have hnone : Answers (b.testModifiers ev.lookup b.modifiers) (.integer n) (.ok true) := by
    rw [hmodifiers]
    exact .pure
  obtain ⟨o, ho, hpassed⟩ := Bracket.exists_evaluation (Bracket.testOperand_literal htarget) hnone
  refine ⟨b.has .ignoreCase, .bracket b, o, hb, ho, ?_⟩
  rw [hpassed, hop, Bool.and_true]

/-- One modifier with arguments, on a value on which it passes just when `P` holds. -/
theorem passesIff_modifier {code : ModifierCode} {m : Modifier} {args : List Argument}
    {ks : List TokenKind} {cs : List Char} {kind : FailureKind} {P : Prop} [Decidable P]
    (hlex : Lexes (cs ++ [')', ']']) (ks ++ [.closeParen, .closeBracket]))
    (hargs : ArgumentsForm ks args) (haccepts : Accepts code args m)
    (hcheck : ∀ s : CheckSetting, s.force = false → ∃ detail,
      m.check s v = .ok (if P then .pass else .fail kind detail))
    (htext : text.toList = '[' :: '|' :: (code.text.toList ++ '(' :: (cs ++ [')', ']']))) :
    PassesIff config ev text v P := by
  have hname : code.text.toList ≠ [] ∧ ∀ c ∈ code.text.toList, IsNameChar c := by
    have hall : code.text.toList.all isWordChar = true := by cases code <;> decide
    exact ⟨by cases code <;> decide, fun c hc => .inl (List.all_eq_true.1 hall c hc)⟩
  have hlower : lowerAscii code.text = code.text := by cases code <;> decide
  have hlex := lexes_modifier hname.1 hname.2 hlex
  rw [← htext, String.ofList_toList] at hlex
  have hform := BracketForm.mk .absent (.cons hlower (.filled hargs) haccepts .nil)
    ⟨.refl [m], List.pairwise_singleton _ _⟩ (ModifierFlags.isUnion_none.cons m) .nil
  simp only [List.nil_append, List.append_nil, List.cons_append, List.append_assoc] at hform
  obtain ⟨b, hb, -, htarget, hmodifiers, hforce⟩ := exists_bracket config hlex hform
  obtain ⟨detail, hdetail⟩ := hcheck ⟨b.force, b.has .ignoreCase, ev.lookup⟩ hforce
  have hone : Answers (b.testModifiers ev.lookup b.modifiers) v (.ok (decide P && true)) := by
    rw [hmodifiers]
    exact (Bracket.testModifier_of_check hdetail).bind (.bind .pure .pure)
  obtain ⟨o, ho, hpassed⟩ := Bracket.exists_evaluation (Bracket.testOperand_absent htarget) hone
  refine ⟨.bracket b, o, hb, ho, ?_⟩
  rw [hpassed, Bool.true_and, Bool.and_true, decide_eq_true_iff]

/-! ## Rules with limits -/

theorem PassesIff.congr {p q : Prop} (h : PassesIff config ev text v p) (hpq : p ↔ q) :
    PassesIff config ev text v q := by
  obtain ⟨r, o, hr, ho, hpassed⟩ := h
  exact ⟨r, o, hr, ho, hpassed.trans hpq⟩

theorem passesIff_at_most (hl : int64? l.toList = some low) :
    PassesIff config ev ("[<=" ++ l ++ "]") (.integer n) (n ≤ low) := by
  have htext : ("[<=" ++ l ++ "]").toList = '[' :: '<' :: '=' :: (l.toList ++ [']']) := by simp
  have hop : Operand.ofSymbol? "<=" = some .lessOrEqual := rfl
  obtain ⟨ignoreCase, h⟩ := passesIff_comparison (by decide) (fun _ => rfl) hop hl htext
  exact h.congr (bne_iff_ne.trans Value.compareLoose_ne_gt_iff)

theorem passesIff_at_least (hl : int64? l.toList = some low) :
    PassesIff config ev ("[>=" ++ l ++ "]") (.integer n) (low ≤ n) := by
  have htext : ("[>=" ++ l ++ "]").toList = '[' :: '>' :: '=' :: (l.toList ++ [']']) := by simp
  have hop : Operand.ofSymbol? ">=" = some .greaterOrEqual := rfl
  obtain ⟨ignoreCase, h⟩ := passesIff_comparison (by decide) (fun _ => rfl) hop hl htext
  exact h.congr (bne_iff_ne.trans Value.compareLoose_ne_lt_iff)

theorem exists_isLimit (hl : int64? l.toList = some low) :
    ∃ x, IsLimit ⟨l, false⟩ x ∧ isFinite x = true ∧ exact x = near low := by
  have hspells := spells_of_int64? hl
  have htrim := Value.trim_of_spells hspells
  obtain ⟨x, hread, hfinite, hexact⟩ := readFinite?_of_spells hspells (natAbs_toInt_lt low)
  exact ⟨x, by rw [IsLimit, htrim, hread], hfinite, hexact⟩

theorem boundForm_integer (hl : int64? l.toList = some low) :
    BoundForm ⟨l, false⟩ (.integer low) := by
  have hliteral := literal_numeral hl
  rw [← hliteral]
  refine .mk (.inl ?_)
  rw [hliteral]
  rfl

theorem lexes_argument (hl : int64? l.toList = some low) :
    Lexes (l.toList ++ [')', ']']) [.word l, .closeParen, .closeBracket] := by
  have h := Lexes.spells (spells_of_int64? hl) (by decide) lexes_close
  rwa [String.ofList_toList] at h

theorem passesIff_max (hl : int64? l.toList = some low) :
    PassesIff config ev ("[|mx(" ++ l ++ ")]") (.integer n) (near n ≤ near low) := by
  obtain ⟨x, hlimit, hfinite, hexact⟩ := exists_isLimit hl
  exact passesIff_modifier (lexes_argument hl) (.last .word) (.max hlimit)
    (fun s hs => Modifier.check_max_integer hs hfinite hexact) (by simp [ModifierCode.text])

theorem passesIff_min (hl : int64? l.toList = some low) :
    PassesIff config ev ("[|mn(" ++ l ++ ")]") (.integer n) (near low ≤ near n) := by
  obtain ⟨x, hlimit, hfinite, hexact⟩ := exists_isLimit hl
  exact passesIff_modifier (lexes_argument hl) (.last .word) (.min hlimit)
    (fun s hs => Modifier.check_min_integer hs hfinite hexact) (by simp [ModifierCode.text])

theorem passesIff_between (hl : int64? l.toList = some low) (hh : int64? h.toList = some high)
    (hle : low ≤ high) : PassesIff config ev ("[|b(" ++ l ++ "," ++ h ++ ")]") (.integer n)
      (near low ≤ near n ∧ near n ≤ near high) := by
  have hlex : Lexes ((l.toList ++ ',' :: h.toList) ++ [')', ']'])
      ([.word l, .comma, .word h] ++ [.closeParen, .closeBracket]) := by
    have hcomma : Lexes (',' :: (h.toList ++ [')', ']']))
        [.comma, .word h, .closeParen, .closeBracket] :=
      .token (by decide) rfl (lexes_argument hh)
    have hlex := Lexes.spells (spells_of_int64? hl) (wordLength_eq_zero (.inr (by decide))) hcomma
    rw [String.ofList_toList] at hlex
    rwa [List.append_assoc]
  have hform : ArgumentsForm [.word l, .comma, .word h] [⟨l, false⟩, ⟨h, false⟩] :=
    .cons .word (.last .word)
  exact passesIff_modifier hlex hform
    (.between (boundForm_integer hl) (boundForm_integer hh) (Value.compareLoose_ne_gt_iff.2 hle))
    (fun s hs => Modifier.check_between_integers hs) (by simp [ModifierCode.text])

end Rule

end Rulebook
