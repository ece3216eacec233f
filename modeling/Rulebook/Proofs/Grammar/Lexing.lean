import Rulebook.Proofs.Grammar.Derivation
import Rulebook.Proofs.Text.Numeral

/-!
# What is scanned

`Lexes cs ks` says that the text `cs` has tokens of the kinds `ks`, without the places where they
stand.  Scanning decides it, and white space around the text makes no difference.
-/

namespace Rulebook.Token

open Text

/-- The kinds of the tokens of a text. -/
inductive Lexes : List Char → List TokenKind → Prop
  | nil : Lexes [] []
  | space {c cs ks} : isSpace c = true → Lexes cs ks → Lexes (c :: cs) ks
  | token {c cs kind n ks} : isSpace c = false → lexeme c cs = .ok (kind, n) →
      Lexes (cs.drop n) ks → Lexes (c :: cs) (kind :: ks)

variable {cs rest : List Char} {ks : List TokenKind}

theorem lexes_of_scanFrom {position : Nat} {ts : List Token} (h : scanFrom position cs = .ok ts) :
    Lexes cs (ts.map Token.kind) := by
  fun_induction scanFrom position cs generalizing ts with
  | case1 => cases h; exact .nil
  | case2 _ _ _ hc ih => exact .space hc (ih h)
  | case3 => cases h
  | case4 =>
    rename_i hc _ _ hk _ _ hts ih
    cases h
    exact .token (by simpa using hc) hk (ih hts)
  | case5 => cases h

theorem Lexes.exists_scanFrom (h : Lexes cs ks) (position : Nat) :
    ∃ ts, scanFrom position cs = .ok ts ∧ ts.map Token.kind = ks := by
  induction h generalizing position with
  | nil => exact ⟨[], by unfold Token.scanFrom; rfl, rfl⟩
  | space hc _ ih =>
    obtain ⟨ts, hts, hks⟩ := ih (position + Char.utf8Size _)
    refine ⟨ts, ?_, hks⟩
    unfold Token.scanFrom
    rw [if_pos hc, hts]
  | @token c cs kind n ks hc hk _ ih =>
    obtain ⟨ts, hts, hks⟩ := ih (position + byteLength (c :: cs.take n))
    refine ⟨⟨kind, ⟨position, position + byteLength (c :: cs.take n)⟩⟩ :: ts, ?_, by simp [hks]⟩
    unfold Token.scanFrom
    rw [if_neg (by simp [hc]), hk]
    simp only [hts]

/-- A text has one list of tokens only. -/
theorem Lexes.unique {ls : List TokenKind} (h : Lexes cs ks) (h' : Lexes cs ls) : ks = ls := by
  obtain ⟨ts, hts, rfl⟩ := h.exists_scanFrom 0
  obtain ⟨us, hus, rfl⟩ := h'.exists_scanFrom 0
  rw [hts] at hus
  cases hus
  rfl

/-! ## Spelling -/

/-- The characters that a token of a kind may have. -/
inductive Spelled : TokenKind → List Char → Prop
  | openBracket : Spelled .openBracket ['[']
  | closeBracket : Spelled .closeBracket [']']
  | openParen : Spelled .openParen ['(']
  | closeParen : Spelled .closeParen [')']
  | comma : Spelled .comma [',']
  | and : Spelled .and ['&', '&']
  | or : Spelled .or ['|', '|']
  | bar : Spelled .bar ['|']
  | dash : Spelled .dash ['-']
  | operator {symbol : String} : symbol ∈ ["=", "!=", "<>", "<", ">", "<=", ">="] →
      Spelled (.operator symbol) symbol.toList
  | quoted {q : Char} {text : List Char} : q = '"' ∨ q = '\'' → q ∉ text →
      Spelled (.quoted (String.ofList text)) (q :: (text ++ [q]))
  | word {cs : List Char} : (∀ c ∈ cs, isSpace c = false ∧ isSpecial c = false) →
      Spelled (.word (String.ofList cs)) cs

/-- Whether a character before `cs` continues a word. -/
def continuesWord (c : Char) (cs : List Char) : Bool :=
  if c = '-' then startsWith isDigit cs else !isSpace c && !isSpecial c

theorem wordLength_cons (c : Char) (cs : List Char) :
    wordLength (c :: cs) = if continuesWord c cs then wordLength cs + 1 else 0 := rfl

theorem of_continuesWord {c : Char} (h : continuesWord c cs = true) :
    isSpace c = false ∧ isSpecial c = false := by
  unfold continuesWord at h
  split at h
  · next hc =>
    subst hc
    decide
  · simpa using h

theorem wordLength_le (cs : List Char) : wordLength cs ≤ cs.length := by
  induction cs with
  | nil => simp [wordLength]
  | cons c cs ih =>
    rw [wordLength_cons, List.length_cons]
    split <;> omega

theorem mem_take_wordLength {c : Char} (h : c ∈ cs.take (wordLength cs)) :
    isSpace c = false ∧ isSpecial c = false := by
  induction cs with
  | nil => simp at h
  | cons d cs ih =>
    rw [wordLength_cons] at h
    split at h
    · next hd =>
      rcases List.mem_cons.1 h with rfl | h
      · exact of_continuesWord hd
      · exact ih h
    · simp at h

theorem eq_cons_of_startsWith {d : Char} (h : startsWith (· == d) cs = true) :
    ∃ cs', cs = d :: cs' := by
  cases cs with
  | nil => simp [startsWith] at h
  | cons c cs =>
    have hc : c = d := by simpa [startsWith] using h
    exact ⟨cs, by rw [hc]⟩

theorem wordToken_spelled {c : Char} (rest : List Char) (hspace : isSpace c = false)
    (hspecial : isSpecial c = false) :
    (wordToken c rest).2 ≤ rest.length ∧
      Spelled (wordToken c rest).1 (c :: rest.take (wordToken c rest).2) := by
  refine ⟨wordLength_le rest, .word ?_⟩
  intro d hd
  rcases List.mem_cons.1 hd with rfl | hd
  · exact ⟨hspace, hspecial⟩
  · exact mem_take_wordLength hd

/-- A token of two characters, the second of them looked at ahead. -/
theorem spelled_pair {c d : Char} {kind : TokenKind} (h : startsWith (· == d) rest = true)
    (hkind : Spelled kind [c, d]) : 1 ≤ rest.length ∧ Spelled kind (c :: rest.take 1) := by
  obtain ⟨cs, rfl⟩ := eq_cons_of_startsWith h
  exact ⟨by simp, hkind⟩

theorem lexeme_spelled {c : Char} {kind : TokenKind} {n : Nat} (hspace : isSpace c = false)
    (h : lexeme c rest = .ok (kind, n)) : n ≤ rest.length ∧ Spelled kind (c :: rest.take n) := by
  unfold lexeme at h
  dsimp only at h
  split at h
  · cases h; exact ⟨by simp, .openBracket⟩
  · cases h; exact ⟨by simp, .closeBracket⟩
  · cases h; exact ⟨by simp, .openParen⟩
  · cases h; exact ⟨by simp, .closeParen⟩
  · cases h; exact ⟨by simp, .comma⟩
  · split at h
    · next hf =>
      cases h
      exact spelled_pair hf .or
    · cases h; exact ⟨by simp, .bar⟩
  · split at h
    · next hf =>
      cases h
      exact spelled_pair hf .and
    · cases h
  · split at h
    · next hf =>
      cases h
      exact spelled_pair hf (.operator (by simp))
    · cases h; exact ⟨by simp, .operator (by simp)⟩
  · split at h
    · next hf =>
      cases h
      exact spelled_pair hf (.operator (by simp))
    · split at h
      · next hf =>
        cases h
        exact spelled_pair hf (.operator (by simp))
      · cases h; exact ⟨by simp, .operator (by simp)⟩
  · split at h
    · next hf =>
      cases h
      exact spelled_pair hf (.operator (by simp))
    · cases h
  · cases h; exact ⟨by simp, .operator (by simp)⟩
  · split at h
    · rw [Except.ok.injEq] at h
      have hw := wordToken_spelled rest hspace (by decide)
      rwa [h] at hw
    · cases h; exact ⟨by simp, .dash⟩
  · split at h
    · next hq =>
      split at h
      · next text after hcut =>
        cases h
        obtain ⟨rfl, hnot⟩ := cutOnce_eq_some hcut
        refine ⟨by simp, ?_⟩
        rw [List.take_append, List.take_of_length_le (Nat.le_succ _), Nat.add_sub_cancel_left,
          List.take_succ_cons, List.take_zero]
        exact .quoted hq hnot
      · cases h
    · next hq =>
      rw [Except.ok.injEq] at h
      have hspecial : isSpecial c = false := by
        rw [not_or] at hq
        simp_all [isSpecial]
      have hw := wordToken_spelled rest hspace hspecial
      rwa [h] at hw

/-! ## White space -/

theorem isSpecial_of_isSpace {c : Char} (h : isSpace c = true) : isSpecial c = false := by
  rw [Bool.eq_false_iff]
  intro hs
  simp only [isSpecial, List.contains_eq_mem, decide_eq_true_eq, List.mem_cons,
    List.not_mem_nil, or_false] at hs
  rcases hs with rfl | rfl | rfl | rfl | rfl | rfl | rfl | rfl | rfl | rfl | rfl | rfl | rfl <;>
    exact absurd h (by decide)

variable {sp : List Char}

theorem startsWith_append_space {p : Char → Bool} (hp : ∀ c, isSpace c = true → p c = false)
    (hsp : ∀ c ∈ sp, isSpace c = true) : startsWith p (cs ++ sp) = startsWith p cs := by
  cases cs with
  | cons => rfl
  | nil =>
    cases sp with
    | nil => rfl
    | cons c sp => exact hp c (hsp c (by simp))

theorem wordLength_space (hsp : ∀ c ∈ sp, isSpace c = true) : wordLength sp = 0 := by
  cases sp with
  | nil => rfl
  | cons c sp =>
    have hc : isSpace c = true := hsp c (by simp)
    rw [wordLength_cons, if_neg]
    intro hword
    simp [(of_continuesWord hword).1] at hc

theorem wordLength_append_space (hsp : ∀ c ∈ sp, isSpace c = true) :
    wordLength (cs ++ sp) = wordLength cs := by
  induction cs with
  | nil => exact wordLength_space hsp
  | cons c cs ih =>
    have hc : continuesWord c (cs ++ sp) = continuesWord c cs := by
      unfold continuesWord
      rw [startsWith_append_space (fun _ => isDigit_of_isSpace) hsp]
    rw [List.cons_append, wordLength_cons, wordLength_cons, hc, ih]

theorem wordToken_append_space {c : Char} (hsp : ∀ c ∈ sp, isSpace c = true) :
    wordToken c (cs ++ sp) = wordToken c cs := by
  unfold wordToken
  dsimp only
  rw [wordLength_append_space hsp, List.take_append_of_le_length (wordLength_le cs)]

theorem cutOnce_append_space {q : Char} (hq : isSpace q = false)
    (hsp : ∀ c ∈ sp, isSpace c = true) :
    cutOnce q (cs ++ sp) = (cutOnce q cs).map fun (a, b) => (a, b ++ sp) := by
  induction cs with
  | nil =>
    rw [List.nil_append]
    cases hcut : cutOnce q sp with
    | none => rfl
    | some p =>
      obtain ⟨hp, -⟩ := cutOnce_eq_some hcut
      have hspace := hsp q (by simp [hp])
      simp [hq] at hspace
  | cons c cs ih =>
    rw [List.cons_append, cutOnce, cutOnce, ih]
    split
    · rfl
    · rw [Option.map_map, Option.map_map]
      rfl

theorem lexeme_append_space {c : Char} (hc : isSpace c = false)
    (hsp : ∀ c ∈ sp, isSpace c = true) : lexeme c (cs ++ sp) = lexeme c cs := by
  have hstarts : ∀ p : Char → Bool, (∀ d, isSpace d = true → p d = false) →
      startsWith p (cs ++ sp) = startsWith p cs :=
    fun p hp => startsWith_append_space hp hsp
  have hfollowed : ∀ d, isSpace d = false →
      startsWith (· == d) (cs ++ sp) = startsWith (· == d) cs := by
    intro d hd
    refine hstarts _ fun e he => beq_eq_false_iff_ne.2 ?_
    rintro rfl
    simp [hd] at he
  have hnumeral := hstarts (fun d => isDigit d || d == '.') fun d hd => by
    rw [isDigit_of_isSpace hd, Bool.false_or, beq_eq_false_iff_ne]
    rintro rfl
    simp [isSpace] at hd
  simp only [lexeme, hfollowed '|' rfl, hfollowed '&' rfl, hfollowed '=' rfl, hfollowed '>' rfl,
    hnumeral, wordToken_append_space hsp, cutOnce_append_space hc hsp]
  cases cutOnce c cs <;> rfl

theorem lexes_space (hsp : ∀ c ∈ sp, isSpace c = true) (h : Lexes sp ks) : ks = [] := by
  induction h with
  | nil => rfl
  | space _ _ ih => exact ih fun d hd => hsp d (by simp [hd])
  | token hc => simp [hsp] at hc

/-- The tokens of a text are those of the text before the white space at its end. -/
theorem lexes_append_space (hsp : ∀ c ∈ sp, isSpace c = true) (h : Lexes (cs ++ sp) ks) :
    Lexes cs ks := by
  generalize htext : cs ++ sp = text at h
  induction h generalizing cs with
  | nil =>
    rw [(List.append_eq_nil_iff.1 htext).1]
    exact .nil
  | @space c text ks hc h ih =>
    cases cs with
    | nil =>
      rw [List.nil_append] at htext
      rw [lexes_space (fun d hd => hsp d (htext ▸ List.mem_cons_of_mem c hd)) h]
      exact .nil
    | cons d cs =>
      cases htext
      exact .space hc (ih rfl)
  | @token c text kind n ks hc hk _ ih =>
    cases cs with
    | nil =>
      rw [List.nil_append] at htext
      have hspace : isSpace c = true := hsp c (by simp [htext])
      simp [hc] at hspace
    | cons d cs =>
      rw [List.cons_append, List.cons.injEq] at htext
      obtain ⟨rfl, rfl⟩ := htext
      rw [lexeme_append_space hc hsp] at hk
      have hle : n ≤ cs.length := (lexeme_spelled hc hk).1
      exact .token hc hk (ih (List.drop_append_of_le_length hle).symm)

theorem lexes_space_append (hsp : ∀ c ∈ sp, isSpace c = true) :
    Lexes (sp ++ cs) ks ↔ Lexes cs ks := by
  induction sp with
  | nil => exact Iff.rfl
  | cons c sp ih =>
    have hc : isSpace c = true := hsp c (by simp)
    rw [← ih fun d hd => hsp d (by simp [hd])]
    constructor
    · intro h
      cases h with
      | space _ h => exact h
      | token hne _ _ => simp [hc] at hne
    · exact .space hc

/-- The tokens of a text are those of the text trimmed. -/
theorem Lexes.trim (h : Lexes cs ks) : Lexes (trim cs) ks := by
  obtain ⟨a, b, htext, ha, hb⟩ := exists_trim cs
  rw [htext, lexes_space_append ha] at h
  exact lexes_append_space hb h

/-! ## Words -/

theorem isWordChar_iff {c : Char} : isWordChar c = true ↔
    ((97 ≤ c.toNat ∧ c.toNat ≤ 122) ∨ (65 ≤ c.toNat ∧ c.toNat ≤ 90)) ∨
      (48 ≤ c.toNat ∧ c.toNat ≤ 57) ∨ c = '_' := by
  simp only [isWordChar, isLetter, isDigit, Bool.or_eq_true, Bool.and_eq_true, decide_eq_true_eq,
    beq_iff_eq, Char.le_def, UInt32.le_iff_toNat_le, or_assoc]
  exact Iff.rfl

/-- A word character or a point. -/
def IsNameChar (c : Char) : Prop := isWordChar c = true ∨ c = '.'

theorem IsNameChar.plain {c : Char} (h : IsNameChar c) :
    isSpace c = false ∧ isSpecial c = false ∧ c ≠ '-' := by
  rcases h with h | rfl
  · refine ⟨?_, ?_, ?_⟩
    · rw [Bool.eq_false_iff]
      intro hspace
      rcases isWordChar_iff.1 h with hletter | hdigit | rfl
      · simp only [isSpace, Bool.or_eq_true, Bool.and_eq_true, decide_eq_true_eq, beq_iff_eq]
          at hspace
        omega
      · simp only [isSpace, Bool.or_eq_true, Bool.and_eq_true, decide_eq_true_eq, beq_iff_eq]
          at hspace
        omega
      · exact absurd hspace (by decide)
    · rw [Bool.eq_false_iff]
      intro hspecial
      simp only [isSpecial, List.contains_eq_mem, decide_eq_true_eq, List.mem_cons,
        List.not_mem_nil, or_false] at hspecial
      rcases hspecial with rfl | rfl | rfl | rfl | rfl | rfl | rfl | rfl | rfl | rfl | rfl | rfl |
        rfl <;> exact absurd h (by decide)
    · rintro rfl
      exact absurd h (by decide)
  · decide

theorem lexeme_of_plain {c : Char} (hspecial : isSpecial c = false) (hdash : c ≠ '-') :
    lexeme c rest = .ok (wordToken c rest) := by
  unfold lexeme
  dsimp only
  split
  case h_12 => exact absurd rfl hdash
  case h_13 =>
    rw [if_neg]
    rintro (rfl | rfl) <;> exact absurd hspecial (by decide)
  all_goals exact absurd hspecial (by decide)

theorem IsNameChar.continuesWord {c : Char} (h : IsNameChar c) (cs : List Char) :
    Token.continuesWord c cs = true := by
  obtain ⟨hspace, hspecial, hdash⟩ := h.plain
  rw [Token.continuesWord, if_neg hdash, hspace, hspecial]
  rfl

theorem wordLength_name {w : List Char} (hw : ∀ c ∈ w, IsNameChar c) :
    wordLength (w ++ rest) = w.length + wordLength rest := by
  induction w with
  | nil => simp
  | cons c w ih =>
    have hc := (hw c (by simp)).continuesWord (w ++ rest)
    rw [List.cons_append, wordLength_cons, if_pos hc, ih fun d hd => hw d (by simp [hd]),
      List.length_cons]
    omega

theorem wordLength_eq_zero {c : Char} (h : isSpace c = true ∨ isSpecial c = true) :
    wordLength (c :: rest) = 0 := by
  rw [wordLength_cons, if_neg]
  intro hword
  obtain ⟨hspace, hspecial⟩ := of_continuesWord hword
  simp [hspace, hspecial] at h

/-- What begins a word makes one of the name characters after it. -/
theorem Lexes.word {c : Char} {w : List Char} (hspace : isSpace c = false)
    (hc : lexeme c (w ++ rest) = .ok (wordToken c (w ++ rest))) (hw : ∀ d ∈ w, IsNameChar d)
    (hrest : wordLength rest = 0) (h : Lexes rest ks) :
    Lexes (c :: w ++ rest) (.word (String.ofList (c :: w)) :: ks) := by
  have hlength : wordLength (w ++ rest) = w.length := by
    rw [wordLength_name hw, hrest, Nat.add_zero]
  rw [wordToken, hlength, List.take_left] at hc
  have hdrop : Lexes ((w ++ rest).drop w.length) ks := by rwa [List.drop_left]
  exact .token hspace hc hdrop

/-- A name at the front is a word of its own. -/
theorem Lexes.name {w : List Char} (hne : w ≠ []) (hw : ∀ c ∈ w, IsNameChar c)
    (hrest : wordLength rest = 0) (h : Lexes rest ks) :
    Lexes (w ++ rest) (.word (String.ofList w) :: ks) := by
  obtain ⟨c, w, rfl⟩ := List.exists_cons_of_ne_nil hne
  obtain ⟨⟨hspace, hspecial, hdash⟩, hw⟩ :=
    And.imp_left IsNameChar.plain (List.forall_mem_cons.1 hw)
  exact .word hspace (lexeme_of_plain hspecial hdash) hw hrest h

/-- So is a whole number, with its sign. -/
theorem Lexes.spells {w : List Char} {z : Int} (hw : Spells w z) (hrest : wordLength rest = 0)
    (h : Lexes rest ks) : Lexes (w ++ rest) (.word (String.ofList w) :: ks) := by
  have hchars : ∀ ds, IsNumeral ds → ∀ c ∈ ds, IsNameChar c :=
    fun ds hds c hc => .inl (isWordChar_of_isDigit (hds.digits c hc))
  cases hw with
  | plain hds => exact .name hds.ne_nil (hchars w hds) hrest h
  | @plus ds hds =>
    exact .word (by decide) (lexeme_of_plain (by decide) (by decide)) (hchars ds hds) hrest h
  | @minus ds hds =>
    refine .word (by decide) ?_ (hchars ds hds) hrest h
    obtain ⟨c, cs, rfl, hc⟩ := hds.exists_cons
    exact if_pos (by rw [List.cons_append, startsWith, hc, Bool.true_or])

end Rulebook.Token

namespace Rulebook.Grammar

open Token

theorem derives_iff_lexes {depth : Nat} {text : String} {s : Shape} :
    Derives depth text s ↔ ∃ ks, Lexes text.toList ks ∧ ChainForm depth ks s := by
  constructor
  · rintro ⟨ts, hts, hchain⟩
    exact ⟨_, lexes_of_scanFrom hts, hchain⟩
  · rintro ⟨ks, hlex, hchain⟩
    obtain ⟨ts, hts, rfl⟩ := hlex.exists_scanFrom 0
    exact ⟨ts, hts, hchain⟩

/-- White space around a rule makes no difference. -/
theorem Derives.strip {depth : Nat} {text : String} {s : Shape} (h : Derives depth text s) :
    Derives depth (Text.strip text) s := by
  obtain ⟨ks, hlex, hchain⟩ := derives_iff_lexes.1 h
  refine derives_iff_lexes.2 ⟨ks, ?_, hchain⟩
  rw [Text.strip, String.toList_ofList]
  exact hlex.trim

end Rulebook.Grammar
