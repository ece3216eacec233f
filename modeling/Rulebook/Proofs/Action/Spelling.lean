import Rulebook.Proofs.Action.Call
import Rulebook.Proofs.Action.Cuts
import Rulebook.Proofs.Action.Reading
import Rulebook.Proofs.Action.RulePieces
import Rulebook.Proofs.Text.Numeral

/-!
# How actions are spelled

Behind its marks, the text of an action with parentheses is

    NAME gap '(' inner ')' tail                                        (spelling_of_readBody)

with nothing but white space in `gap` and `tail`, and with `inner` balanced.  So it is taken whole
(`whole_of_readBody`), and as a parameter it looks like an action just when no white space stands
between its marks (`looksLikeAction_of_readBody`).
-/

namespace Rulebook.Action

open Text TopLevel

variable {config : Config} {nested : Nested} {kind : ActionKind}
  {cs name : List Char} {position : Nat} {ps : List Param} {a : Action}

/-! ## Names -/

theorem IsName.not_space (hname : IsName name) : ∀ c ∈ name, isSpace c = false :=
  fun c hc => (Token.IsNameChar.plain (.inl (hname.all_word c hc))).1

theorem IsName.trim (hname : IsName name) : trim name = name := trim_eq_self hname.not_space

/-- The names of the kinds begin with letters. -/
theorem isLetter_head_name (kind : ActionKind) :
    (kind.name.toList.head?.map isLetter).getD false = true := by
  cases kind <;> decide

/-- So do they in any case. -/
theorem isLetter_head_of_ofName? (hname : IsName name)
    (h : ActionKind.ofName? (String.ofList name) = some kind) :
    (name.head?.map isLetter).getD false = true := by
  unfold ActionKind.ofName? at h
  have hsame := List.find?_some h
  rw [strip, String.toList_ofList, hname.trim, sameWord, String.toList_ofList, beq_iff_eq] at hsame
  have hhead : kind.name.toList.head?.map Char.toLower = name.head?.map Char.toLower := by
    rw [← List.head?_map, ← List.head?_map, hsame]
  have hkind := isLetter_head_name kind
  cases hw : kind.name.toList.head? with
  | none => simp [hw] at hkind
  | some d =>
    rw [hw] at hkind hhead
    obtain ⟨c, hc, hlower⟩ := Option.map_eq_some_iff.1 hhead.symm
    rw [hc]
    exact (isLetter_toLower c).1 (hlower ▸ (isLetter_toLower d).2 hkind)

/-! ## Marks -/

/-- What is taken off before a name: exclamation marks, and the white space around them. -/
def isMark (c : Char) : Bool := c == '!' || isSpace c

theorem readMarks_snd (cs : List Char) : (readMarks cs).2 = cs.dropWhile isMark := by
  induction cs with
  | nil => rfl
  | cons c cs ih =>
    rw [readMarks, List.dropWhile_cons, isMark]
    by_cases hc : c = '!'
    · simpa [hc] using ih
    · by_cases hspace : isSpace c = true
      · simpa [hc, hspace] using ih
      · simp [hc, hspace]

/-- White space stands between the marks of an action. -/
def MarksApart (cs : List Char) : Prop := (trimStart (cs.dropWhile (· == '!'))).head? = some '!'

instance : DecidablePred MarksApart := fun _ => inferInstanceAs (Decidable (_ = _))

/-- Where the marks are not apart, taking off marks once and then white space takes off all. -/
theorem trimStart_eq_readMarks (h : ¬ MarksApart cs) :
    trimStart (cs.dropWhile (· == '!')) = (readMarks cs).2 := by
  have hdrop : (trimStart (cs.dropWhile (· == '!'))).dropWhile isMark = cs.dropWhile isMark := by
    rw [trimStart, dropWhile_dropWhile fun c hc => by simp [isMark, hc],
      dropWhile_dropWhile fun c hc => by simp [isMark, hc]]
  rw [readMarks_snd, ← hdrop]
  have hspace := List.head?_dropWhile_not isSpace (cs.dropWhile (· == '!'))
  rw [← trimStart] at hspace
  rw [MarksApart] at h
  cases hrest : trimStart (cs.dropWhile (· == '!')) with
  | nil => rfl
  | cons c rest =>
    rw [hrest] at h hspace
    have hmark : ¬ isMark c = true := by
      simp only [List.head?_cons, Option.some.injEq] at h hspace
      simpa [isMark, h] using hspace
    rw [List.dropWhile_cons_of_neg hmark]

/-! ## Texts -/

/-- A name, and parameters in parentheses. -/
structure Spelling (cs name gap inner tail : List Char) : Prop where
  text : cs = name ++ (gap ++ '(' :: (inner ++ ')' :: tail))
  isName : IsName name
  letter : (name.head?.map isLetter).getD false = true
  gap_space : ∀ c ∈ gap, isSpace c = true
  balanced : Balanced inner
  tail_space : ∀ c ∈ tail, isSpace c = true

/-- Parameters are read from balanced text only. -/
theorem balanced_of_readParams {inner : List Char}
    (h : readParams config nested kind inner position = .ok ps) : Balanced inner := by
  unfold readParams at h
  split at h
  · next hblank => exact balanced_of_isBlank hblank
  · obtain ⟨pieces, hpieces, -⟩ := bind_ok_iff.1 h
    exact balanced_of_pieces hpieces

/-- The text after a name that holds parentheses. -/
theorem spelling_of_readParamList {after : List Char} (hname : IsName name)
    (hletter : (name.head?.map isLetter).getD false = true) (hparen : '(' ∈ after)
    (h : readParamList config nested kind after position = .ok ps) :
    ∃ gap inner tail, Spelling (name ++ after) name gap inner tail := by
  have hblank : ¬ isBlank after = true := by
    intro hblank
    exact absurd (List.all_eq_true.1 hblank '(' hparen) (by decide)
  unfold readParamList at h
  rw [if_neg hblank] at h
  dsimp only [trimFrom] at h
  split at h
  · cases h
  · next inner hinner =>
    obtain ⟨gap, tail, htext, hgap, htail⟩ := exists_trim after
    have hargs : trim after = '(' :: (inner ++ [')']) := between?_eq_some hinner
    refine ⟨gap, inner, tail, ?_, hname, hletter, hgap, balanced_of_readParams h, htail⟩
    rw [htext, hargs]
    simp

theorem not_mem_takeWhile {p : Char → Bool} {c : Char} (hc : p c = false) :
    c ∉ cs.takeWhile p := by
  intro hmem
  have hp : p c = true := List.all_eq_true.1 List.all_takeWhile c hmem
  simp [hc] at hp

theorem spelling_of_readBody (h : readBody config nested cs position = .ok a) (hparen : '(' ∈ cs) :
    ∃ name gap inner tail, Spelling (readMarks cs).2 name gap inner tail := by
  obtain ⟨hne, kind, params, hkind, hparams, -⟩ := readBody_ok_iff.1 h
  let rest := (readMarks cs).2
  let name := rest.takeWhile isWordChar
  have hname : IsName name := ⟨hne, List.all_eq_true.1 List.all_takeWhile⟩
  have hafter : name ++ rest.drop name.length = rest :=
    List.prefix_iff_eq_append.1 (List.takeWhile_prefix isWordChar)
  have hmarks : cs.takeWhile isMark ++ (name ++ rest.drop name.length) = cs := by
    rw [hafter, show rest = _ from readMarks_snd cs, List.takeWhile_append_dropWhile]
  have hparen' : '(' ∈ rest.drop name.length := by
    rw [← hmarks, List.mem_append, List.mem_append] at hparen
    exact (hparen.resolve_left (not_mem_takeWhile rfl)).resolve_left (not_mem_takeWhile rfl)
  have hletter := isLetter_head_of_ofName? hname hkind
  obtain ⟨gap, inner, tail, hspelling⟩ :=
    spelling_of_readParamList hname hletter hparen' hparams
  rw [hafter] at hspelling
  exact ⟨name, gap, inner, tail, hspelling⟩

/-! ## What the spelling says -/

variable {gap inner tail : List Char}

theorem not_mem_marks_of_isSpace {c : Char} (hc : isSpace c = true) : c ∉ TopLevel.marks :=
  not_mem_marks (Token.isSpecial_of_isSpace hc)

theorem not_mem_marks_of_isMark {c : Char} (hc : isMark c = true) : c ∉ TopLevel.marks := by
  rcases Bool.or_eq_true_iff.1 hc with hc | hc
  · rw [beq_iff_eq.1 hc]
    decide
  · exact not_mem_marks_of_isSpace hc

theorem IsName.not_mem_marks (hname : IsName name) : ∀ c ∈ name, c ∉ TopLevel.marks :=
  fun c hc => TopLevel.not_mem_marks (Token.IsNameChar.plain (.inl (hname.all_word c hc))).2.1

/-- A character that an action may have outside its parentheses. -/
def IsBare (c : Char) : Prop := isMark c = true ∨ isWordChar c = true

theorem isBare_of_isSpace {c : Char} (hc : isSpace c = true) : IsBare c :=
  .inl (by rw [isMark, hc, Bool.or_true])

theorem IsBare.not_mem_marks {c : Char} (hc : IsBare c) : c ∉ TopLevel.marks := by
  rcases hc with hc | hc
  · exact not_mem_marks_of_isMark hc
  · exact TopLevel.not_mem_marks (Token.IsNameChar.plain (.inl hc)).2.1

section
variable {sep base rest : List Char} {s : Scan} {opens : Bool}

theorem takes_bare (hcut : ∀ c, IsBare c → Uncut sep base c) (hcs : ∀ c ∈ cs, IsBare c)
    (hready : Ready s base opens) : Takes sep s cs rest base false :=
  takes_unmarked (fun c hc => hcut c (hcs c hc)) (fun c hc => (hcs c hc).not_mem_marks) hready

/-- Behind its marks, the text of an action is taken whole where nothing is cut outside its
parentheses. -/
theorem Spelling.takes {ms : List Char} (h : Spelling cs name gap inner tail)
    (hms : ∀ c ∈ ms, isMark c = true) (hcut : ∀ c, IsBare c → Uncut sep base c)
    (hready : Ready s base opens) : Takes sep s (ms ++ cs) rest base false := by
  have htext : ms ++ cs = (ms ++ (name ++ gap)) ++ (['('] ++ (inner ++ ([')'] ++ tail))) := by
    rw [h.text]
    simp
  have hbefore : ∀ c ∈ ms ++ (name ++ gap), IsBare c := by
    simp only [List.forall_mem_append]
    exact ⟨fun c hc => .inl (hms c hc), fun c hc => .inr (h.isName.all_word c hc),
      fun c hc => isBare_of_isSpace (h.gap_space c hc)⟩
  rw [htext]
  have hstart : Takes sep s (ms ++ (name ++ gap)) (['('] ++ (inner ++ ([')'] ++ tail)) ++ rest)
      base false := takes_bare hcut hbefore hready
  refine hstart.append fun s₁ h₁ => ?_
  -- within the parentheses the stack is not empty, and nothing is cut there
  have hopen : Takes sep s₁ ['('] (inner ++ ([')'] ++ tail) ++ rest) ('(' :: base) true :=
    takes_open (.inl rfl) h₁
  refine hopen.append fun s₂ h₂ => ?_
  refine (takes_balanced h.balanced (List.cons_ne_nil _ _) h₂).append fun s₃ h₃ => ?_
  have hclose : Takes sep s₃ [')'] (tail ++ rest) base false := takes_close (c := '(') (.inl rfl) h₃
  exact hclose.append fun s₄ h₄ =>
    takes_bare hcut (fun c hc => isBare_of_isSpace (h.tail_space c hc)) h₄

/-- An action without parentheses is a name, perhaps after marks. -/
theorem isBare_of_readBody (h : readBody config nested cs position = .ok a) (hparen : '(' ∉ cs) :
    ∀ c ∈ cs, IsBare c := by
  obtain ⟨-, kind, params, -, hparams, -⟩ := readBody_ok_iff.1 h
  let name := (readMarks cs).2.takeWhile isWordChar
  let after := (readMarks cs).2.drop name.length
  have hrest : name ++ after = (readMarks cs).2 :=
    List.prefix_iff_eq_append.1 (List.takeWhile_prefix isWordChar)
  have hmarks : cs.takeWhile isMark ++ (name ++ after) = cs := by
    rw [hrest, readMarks_snd cs, List.takeWhile_append_dropWhile]
  have hblank : isBlank after = true := by
    unfold readParamList at hparams
    split at hparams
    · next hblank => exact hblank
    · dsimp only at hparams
      split at hparams
      · cases hparams
      · next inner hinner =>
        have hargs : trim after = '(' :: (inner ++ [')']) := between?_eq_some hinner
        have hmem : '(' ∈ after := (mem_trim_iff (by decide)).1 (hargs ▸ List.mem_cons_self)
        rw [← hmarks, List.mem_append, List.mem_append] at hparen
        exact absurd (.inr (.inr hmem)) hparen
  rw [← hmarks]
  simp only [List.forall_mem_append]
  exact ⟨fun c hc => .inl (List.all_eq_true.1 List.all_takeWhile c hc),
    fun c hc => .inr (List.all_eq_true.1 List.all_takeWhile c hc),
    fun c hc => isBare_of_isSpace (List.all_eq_true.1 hblank c hc)⟩

theorem takes_of_readBody (h : readBody config nested cs position = .ok a)
    (hcut : ∀ c, IsBare c → Uncut sep base c) (hready : Ready s base opens) :
    Takes sep s cs rest base false := by
  by_cases hparen : '(' ∈ cs
  · obtain ⟨name, gap, inner, tail, hspelling⟩ := spelling_of_readBody h hparen
    have hmarks : cs.takeWhile isMark ++ (readMarks cs).2 = cs := by
      rw [readMarks_snd, List.takeWhile_append_dropWhile]
    rw [← hmarks]
    exact hspelling.takes (List.all_eq_true.1 List.all_takeWhile) hcut hready
  · exact takes_bare hcut (isBare_of_readBody h hparen) hready

end

/-- The text of an action is taken whole, with the white space around it. -/
theorem whole_of_readBody (h : readBody config nested (trim cs) position = .ok a) : Whole cs := by
  intro sep base rest s hcuts hready
  have hcut : ∀ c, IsBare c → Uncut sep base c := by
    intro c hc
    show Uncut sep ([] ++ base) c
    refine hcuts.uncut ?_
    rintro rfl
    exact absurd hc.not_mem_marks (by decide)
  obtain ⟨before, after, htext, hbefore, hafter⟩ := exists_trim cs
  rw [htext]
  refine (takes_bare hcut (fun c hc => isBare_of_isSpace (hbefore c hc)) hready).append
    fun s₁ h₁ => ?_
  refine (takes_of_readBody h hcut h₁).append fun s₂ h₂ => ?_
  exact takes_bare hcut (fun c hc => isBare_of_isSpace (hafter c hc)) h₂

/-- It holds no arrow outside its parentheses. -/
theorem pieces_of_readBody (h : readBody config nested cs position = .ok a) (start : Nat) :
    TopLevel.pieces ['=', '>'] start cs = .ok [⟨start, cs⟩] := by
  refine pieces_of_takes (takes_of_readBody h (fun c hc => .inr fun rest => ?_) (ready_start start))
  have hne : '=' ≠ c := by
    rintro rfl
    revert hc
    simp only [IsBare]
    decide
  simp [List.isPrefixOf, hne]

/-- It begins with none of the characters that are read in a way of their own. -/
theorem exists_cons_of_readBody (h : readBody config nested cs position = .ok a)
    (hparen : '(' ∈ cs) : ∃ c rest, cs = c :: rest ∧ c ∉ TopLevel.marks := by
  obtain ⟨name, gap, inner, tail, hspelling⟩ := spelling_of_readBody h hparen
  have hmarks : cs.takeWhile isMark ++ (readMarks cs).2 = cs := by
    rw [readMarks_snd, List.takeWhile_append_dropWhile]
  rw [← hmarks, hspelling.text]
  cases hms : cs.takeWhile isMark with
  | nil =>
    obtain ⟨c, rest, rfl, -⟩ := hspelling.isName.exists_cons
    exact ⟨c, _, rfl, hspelling.isName.not_mem_marks c List.mem_cons_self⟩
  | cons c ms =>
    have hc : c ∈ cs.takeWhile isMark := hms ▸ List.mem_cons_self
    exact ⟨c, _, rfl, not_mem_marks_of_isMark (List.all_eq_true.1 List.all_takeWhile c hc)⟩

theorem Spelling.cutOnce (h : Spelling cs name gap inner tail) :
    cutOnce '(' cs = some (name ++ gap, inner ++ ')' :: tail) := by
  have hparen : '(' ∉ name ++ gap := by
    rw [List.mem_append, not_or]
    exact ⟨fun hm => absurd (h.isName.all_word '(' hm) (by decide),
      fun hm => absurd (h.gap_space '(' hm) (by decide)⟩
  rw [h.text, ← List.append_assoc]
  exact cutOnce_append hparen

/-- Between marks that are apart, a second one is taken for part of the name. -/
theorem looksLikeAction_of_marksApart (h : MarksApart cs) : looksLikeAction cs = false := by
  obtain ⟨rest, hrest⟩ := List.head?_eq_some_iff.1 h
  unfold looksLikeAction
  rw [hrest]
  split
  · next before after hcut =>
    obtain ⟨htext, -⟩ := cutOnce_eq_some hcut
    have hbefore : '!' ∈ before := by
      cases before with
      | nil => cases htext
      | cons c before => exact (List.cons.inj htext).1 ▸ List.mem_cons_self
    have hmem : '!' ∈ trimEnd before := by
      obtain ⟨tail, htail, hspace⟩ := exists_trimEnd before
      rw [htail, List.mem_append] at hbefore
      exact hbefore.resolve_right fun hm => absurd (hspace '!' hm) (by decide)
    have hall : (trimEnd before).all isWordChar = false :=
      List.all_eq_false.2 ⟨'!', hmem, by decide⟩
    dsimp only
    rw [hall, Bool.false_and]
  · rfl

/-- An action with parentheses is one among parameters unless its marks are apart. -/
theorem looksLikeAction_of_readBody (h : readBody config nested cs position = .ok a)
    (hparen : '(' ∈ cs) : looksLikeAction cs = !decide (MarksApart cs) := by
  by_cases hapart : MarksApart cs
  · rw [looksLikeAction_of_marksApart hapart, decide_eq_true hapart]
    rfl
  · obtain ⟨name, gap, inner, tail, hspelling⟩ := spelling_of_readBody h hparen
    have hname : trimEnd (name ++ gap) = name := by
      rw [trimEnd_append hspelling.gap_space, trimEnd_eq_self hspelling.isName.not_space]
    unfold looksLikeAction
    rw [trimStart_eq_readMarks hapart, hspelling.cutOnce]
    dsimp only
    rw [hname, List.all_eq_true.2 hspelling.isName.all_word, hspelling.letter,
      decide_eq_false hapart]
    rfl

end Rulebook.Action
