import Rulebook.Proofs.Date.Text
import Rulebook.Proofs.Grammar.Lexing
import Rulebook.Value.Literal
import Rulebook.Value.Text

/-!
# Values written as literals

Null, the truth values, whole numbers and dates are read back from their text as what they are:

    v.IsScalar  →  literal v.display = v

and white space around the text makes no difference (`literal_of_padded`).  Of these readings the
first that succeeds counts, so a date is no whole number and no decimal: a hyphen stands behind its
year, where neither has one.
-/

namespace Rulebook

open Text

variable {cs ds rest : List Char}

/-! ## What is no number -/

/-- What begins with a digit is no infinity and no NaN. -/
theorem Decimal.magnitude?_numeral (hds : IsNumeral ds) (rest : List Char) :
    magnitude? (ds ++ rest) = number? (ds ++ rest) := by
  obtain ⟨c, cs, hcons, hc⟩ := hds.exists_cons
  have hletter : isLetter c.toLower = false := by
    rw [Bool.eq_false_iff, ne_eq, isLetter_toLower, isLetter_of_isDigit hc]
    decide
  have hword : ∀ w : String, (w.toList.head?.map isLetter).getD false = true →
      String.ofList ((ds ++ rest).map Char.toLower) ≠ w := by
    rintro _ hw rfl
    rw [hcons, String.toList_ofList] at hw
    simp [hletter] at hw
  unfold magnitude?
  split
  · next heq => exact absurd heq (hword "inf" (by decide))
  · next heq => exact absurd heq (hword "infinity" (by decide))
  · next heq => exact absurd heq (hword "nan" (by decide))
  · rfl

theorem Decimal.magnitude?_eq_none (hds : IsNumeral ds) (rest : List Char) :
    magnitude? (ds ++ '-' :: rest) = none := by
  have htake := Date.takeWhile_numeral hds (Date.endsDigits_hyphen rest)
  have hdrop : (ds ++ '-' :: rest).dropWhile isDigit = '-' :: rest := by
    rw [List.dropWhile_append_of_pos hds.digits, List.dropWhile_cons_of_neg (by decide)]
  rw [magnitude?_numeral hds]
  simp only [number?, htake, hdrop, hds.ne_nil, false_and, if_false, exponent?]
  rfl

namespace Date

theorem int64?_write (d : Date) : int64? d.write.toList = none := by
  obtain ⟨sign, ds, rest, htext, hds, hsign⟩ := exists_toList_write d
  obtain ⟨c, cs, rfl, -⟩ := hds.exists_cons
  have hinteger : integer? d.write.toList = none := by
    rw [htext]
    rcases hsign with rfl | rfl | rfl
    · exact integer?_eq_none (by simp) c
    · exact integer?_eq_none (by simp) '-'
    · exact integer?_eq_none (by simp) '+'
  rw [int64?, hinteger, Option.bind_none]

theorem readFinite?_write (d : Date) : Decimal.readFinite? d.write.toList = none := by
  obtain ⟨sign, ds, rest, htext, hds, hsign⟩ := exists_toList_write d
  have hmagnitude := Decimal.magnitude?_eq_none hds rest
  have hread : Decimal.read? d.write.toList = none := by
    rw [htext]
    rcases hsign with rfl | rfl | rfl
    · rw [List.nil_append]
      unfold Decimal.read?
      split
      · next heq => exact absurd heq (hds.append_ne_cons (by decide) _ _)
      · next heq => exact absurd heq (hds.append_ne_cons (by decide) _ _)
      · exact hmagnitude
    · rw [List.singleton_append, Decimal.read?, hmagnitude, Option.map_none]
    · rw [List.singleton_append, Decimal.read?, hmagnitude]
  rw [Decimal.readFinite?, hread, Option.filter_none]

end Date

/-! ## Literals -/

namespace Value

/-- Null, a truth value, a whole number or a date. -/
def IsScalar : Value → Prop
  | .null | .bool _ | .integer _ | .date _ => True
  | .decimal _ | .text _ | .list _ | .object _ => False

/-- A character that the text of a scalar may have. -/
def IsLiteralChar (c : Char) : Prop := isWordChar c = true ∨ c = '-' ∨ c = '+'

theorem isLiteralChar_of_isDigit {c : Char} (hc : isDigit c = true) : IsLiteralChar c :=
  .inl (isWordChar_of_isDigit hc)

theorem spells_chars {z : Int} (h : Spells cs z) : ∀ c ∈ cs, IsLiteralChar c := by
  cases h with
  | plain h => exact fun c hc => isLiteralChar_of_isDigit (h.digits c hc)
  | plus h =>
    rw [List.forall_mem_cons]
    exact ⟨.inr (.inr rfl), fun c hc => isLiteralChar_of_isDigit (h.digits c hc)⟩
  | minus h =>
    rw [List.forall_mem_cons]
    exact ⟨.inr (.inl rfl), fun c hc => isLiteralChar_of_isDigit (h.digits c hc)⟩

theorem writeInteger_chars (n : Int64) : ∀ c ∈ (writeInteger n).toList, IsLiteralChar c := by
  rw [writeInteger, String.toList_ofList]
  exact spells_chars (spells_of_int64? (int64?_writeInteger n))

theorem writeDate_chars (d : Date) : ∀ c ∈ d.write.toList, IsLiteralChar c := by
  have hpad : ∀ width n, ∀ c ∈ padNatural width n, IsLiteralChar c :=
    fun width n c hc => isLiteralChar_of_isDigit ((isNumeral_padNatural width n).digits c hc)
  have hyear : ∀ c ∈ Date.writeYear d.year, IsLiteralChar c := by
    unfold Date.writeYear
    split
    · exact hpad _ _
    · rw [List.forall_mem_cons]
      refine ⟨?_, hpad _ _⟩
      split
      · exact .inr (.inl rfl)
      · exact .inr (.inr rfl)
  rw [Date.toList_write]
  simp only [List.forall_mem_append, List.forall_mem_cons]
  exact ⟨hyear, .inr (.inl rfl), hpad _ _, .inr (.inl rfl), hpad _ _, nofun⟩

theorem display_chars {v : Value} (h : v.IsScalar) : ∀ c ∈ v.display.toList, IsLiteralChar c := by
  have hword : ∀ w : String, w.toList.all isWordChar = true → ∀ c ∈ w.toList, IsLiteralChar c :=
    fun w hw c hc => .inl (List.all_eq_true.1 hw c hc)
  cases v with
  | null =>
    rw [display]
    exact hword "null" (by decide)
  | bool b =>
    rw [display]
    cases b
    · exact hword "false" (by decide)
    · exact hword "true" (by decide)
  | integer n => exact writeInteger_chars n
  | date d => exact writeDate_chars d
  | decimal | text | list | object => exact h.elim

theorem IsLiteralChar.not_space {c : Char} (h : IsLiteralChar c) : isSpace c = false := by
  rcases h with hc | rfl | rfl
  · exact (Token.IsNameChar.plain (.inl hc)).1
  · decide
  · decide

theorem trim_display {v : Value} (h : v.IsScalar) : trim v.display.toList = v.display.toList :=
  trim_eq_self fun c hc => (display_chars h c hc).not_space

/-- What begins with no letter is none of the words. -/
theorem not_word {c : Char} (hc : isLetter c = false) (cs : List Char) :
    sameWord (String.ofList (c :: cs)) "null" = false ∧
      sameWord (String.ofList (c :: cs)) "true" = false ∧
      sameWord (String.ofList (c :: cs)) "false" = false :=
  ⟨sameWord_eq_false hc (by decide), sameWord_eq_false hc (by decide),
    sameWord_eq_false hc (by decide)⟩

/-- What spells a whole number begins with no letter. -/
theorem exists_cons_of_spells {z : Int} (h : Spells cs z) :
    ∃ c ds, cs = c :: ds ∧ isLetter c = false := by
  cases h with
  | plain h =>
    obtain ⟨c, ds, rfl, hc⟩ := h.exists_cons
    exact ⟨c, ds, rfl, isLetter_of_isDigit hc⟩
  | plus => exact ⟨'+', _, rfl, by decide⟩
  | minus => exact ⟨'-', _, rfl, by decide⟩

theorem trim_of_spells {z : Int} (h : Spells cs z) : trim cs = cs :=
  trim_eq_self fun c hc => (spells_chars h c hc).not_space

/-- A text that reads as a whole number is a literal of it. -/
theorem literal_of_int64? {n : Int64} (h : int64? cs = some n) :
    literal (String.ofList cs) = .integer n := by
  have hspells := spells_of_int64? h
  have htrim := trim_of_spells hspells
  obtain ⟨c, ds, rfl, hc⟩ := exists_cons_of_spells hspells
  unfold literal
  rw [String.toList_ofList, htrim]
  simp only [not_word hc ds, h, Bool.false_eq_true, if_false]

theorem literal_integer (n : Int64) : literal (display (.integer n)) = .integer n :=
  literal_of_int64? (int64?_writeInteger n)

theorem literal_date (d : Date) : literal (display (.date d)) = .date d := by
  obtain ⟨sign, ds, rest, htext, hds, hsign⟩ := Date.exists_toList_write d
  obtain ⟨c, cs, hcs, hc⟩ : ∃ c cs, d.write.toList = c :: cs ∧ isLetter c = false := by
    obtain ⟨c, cs, rfl, hc⟩ := hds.exists_cons
    rcases hsign with rfl | rfl | rfl
    · exact ⟨c, _, htext, isLetter_of_isDigit hc⟩
    · exact ⟨'-', _, htext, by decide⟩
    · exact ⟨'+', _, htext, by decide⟩
  have hdisplay : (display (.date d)).toList = c :: cs := by rw [display, hcs]
  have hint : int64? (c :: cs) = none := hcs ▸ d.int64?_write
  have hdecimal : Decimal.readFinite? (c :: cs) = none := hcs ▸ d.readFinite?_write
  have hdate : Date.read? (c :: cs) = some d := hcs ▸ d.read?_write
  have htrim := trim_display (v := .date d) trivial
  unfold literal
  rw [htrim, hdisplay]
  simp only [not_word hc cs, hint, hdecimal, hdate, Bool.false_eq_true, if_false]

/-- The text of null, a truth value, a whole number or a date is a literal of that value. -/
theorem literal_display {v : Value} (h : v.IsScalar) : literal v.display = v := by
  cases v with
  | null => rfl
  | bool b => cases b <;> rfl
  | integer n => exact literal_integer n
  | date d => exact literal_date d
  | decimal | text | list | object => exact h.elim

/-- A literal is told by its trimmed text. -/
theorem literal_congr {s t : String} (h : trim s.toList = trim t.toList) :
    literal s = literal t := by
  unfold literal
  rw [h]

/-- **Null, a truth value, a whole number or a date is read back from its text**, with any white
space around it. -/
theorem literal_of_padded {v : Value} (h : v.IsScalar) {a b : String}
    (ha : ∀ c ∈ a.toList, isSpace c = true) (hb : ∀ c ∈ b.toList, isSpace c = true) :
    literal (a ++ v.display ++ b) = v := by
  have htrim : trim (a ++ v.display ++ b).toList = trim v.display.toList := by
    rw [String.toList_append, String.toList_append, List.append_assoc, trim_padded ha hb]
  rw [literal_congr htrim, literal_display h]

/-- A day before the year 0 with a tab, and with a no-break space and the end of a line. -/
theorem literal_of_padded_ides :
    let ides : Value := .date ⟨-44, 3, 15, by decide⟩
    ides.display = "-0044-03-15" ∧ literal "\t-0044-03-15\u00A0\n" = ides := by
  intro ides
  have hdisplay : ides.display = "-0044-03-15" := by decide +kernel
  have hbefore : ∀ c ∈ "\t".toList, isSpace c = true := List.all_eq_true.1 (by decide)
  have hbehind : ∀ c ∈ "\u00A0\n".toList, isSpace c = true := List.all_eq_true.1 (by decide)
  have hread := literal_of_padded (v := ides) trivial hbefore hbehind
  rw [hdisplay] at hread
  exact ⟨hdisplay, hread⟩

/-- The text is not empty, as the literal of the empty text is that text. -/
theorem display_ne_nil {v : Value} (h : v.IsScalar) : v.display.toList ≠ [] := by
  intro hnil
  have hempty : v.display = "" := String.toList_eq_nil_iff.1 hnil
  have hliteral : literal "" = v := hempty ▸ literal_display h
  have htext : literal "" = .text "" := rfl
  rw [← hliteral, htext] at h
  exact h

end Value

end Rulebook
