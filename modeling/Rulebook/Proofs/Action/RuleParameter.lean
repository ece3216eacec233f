import Rulebook.Proofs.Action.Call
import Rulebook.Proofs.Action.Joined
import Rulebook.Proofs.Action.Reading
import Rulebook.Proofs.Grammar.Compile

/-!
# Rules as parameters

A rule can stand in the parentheses of an instruction as it is: it is cut out whole, and no rule is
a reference, because the word after the bar of a reference is no code.

    compile config e = .ok _  →  parse config "CHECK(e)" is the check of the rule that e trimmed is
-/

namespace Rulebook

open Text

/-! ## References -/

namespace Action

open Grammar Token

variable {cs : List Char} {p : Param}

/-- A name with white space around it, before a character that ends words. -/
theorem lexes_trim {text rest : List Char} {e : Char} {ks : List TokenKind}
    (hne : trim text ≠ []) (hname : ∀ c ∈ trim text, IsNameChar c) (he : isSpecial e = true)
    (h : Lexes (e :: rest) ks) :
    Lexes (text ++ e :: rest) (.word (String.ofList (trim text)) :: ks) := by
  obtain ⟨a, b, htext, ha, hb⟩ := exists_trim text
  generalize trim text = w at *
  rw [htext, List.append_assoc, List.append_assoc, lexes_space_append ha]
  refine Lexes.name hne hname ?_ ((lexes_space_append hb).2 h)
  cases b with
  | nil => exact wordLength_eq_zero (.inr he)
  | cons d b => exact wordLength_eq_zero (.inl (hb d (by simp)))

theorem lexes_reference (h : reference? cs = some p) : ∃ target path,
    Lexes cs [.openBracket, .word target, .bar, .word path, .closeBracket] ∧ '.' ∈ path.toList := by
  obtain ⟨target, path, rfl, htarget, hname, hdot, -⟩ := reference?_eq_some h
  obtain ⟨hne, hword⟩ := isWord_iff.1 htarget
  have hend : Lexes [']'] [.closeBracket] := .token (by decide) rfl .nil
  have hpath : Lexes (path ++ ']' :: []) [.word (String.ofList (trim path)), .closeBracket] :=
    lexes_trim (List.ne_nil_of_mem hdot) hname (by decide) hend
  have hnobar : startsWith (· == '|') (path ++ [']']) = false := by
    rw [Bool.eq_false_iff]
    intro hstarts
    obtain ⟨after, hafter⟩ := eq_cons_of_startsWith hstarts
    have hmem : '|' ∈ path := by
      have hmem' : '|' ∈ path ++ [']'] := by simp [hafter]
      simpa using hmem'
    exact absurd (hname '|' ((mem_trim_iff (by decide)).2 hmem)).plain.2.1 (by decide)
  have hlexeme : lexeme '|' (path ++ [']']) = .ok (.bar, 0) := by
    simp [lexeme, hnobar]
  have hbar : Lexes ('|' :: (path ++ [']'])) [.bar, .word (String.ofList (trim path)),
      .closeBracket] := .token (by decide) hlexeme hpath
  have htarget := lexes_trim hne (fun c hc => .inl (hword c hc)) (by decide) hbar
  refine ⟨String.ofList (trim target), String.ofList (trim path), ?_, by simpa using hdot⟩
  rw [List.append_assoc]
  exact .token (by decide) rfl htarget

end Action

namespace Grammar

theorem BracketForm.code_of_bar {t w : String} {ks ls rest : List TokenKind} {s : Shape}
    (h : BracketForm ks s)
    (heq : ks ++ ls = .openBracket :: .word t :: .bar :: .word w :: rest) :
    ∃ code, lowerAscii w = ModifierCode.text code := by
  cases h with
  | mk hc hm _ _ hf =>
    simp only [List.cons_append, List.append_assoc, List.cons.injEq, true_and] at heq
    cases hc with
    | absent =>
      cases hm with
      | nil => cases hf <;> simp at heq
      | cons => simp at heq
    | equal =>
      rw [List.singleton_append, List.cons.injEq] at heq
      cases hm with
      | nil => cases hf <;> simp at heq
      | cons hcode =>
        simp only [List.cons_append, List.cons.injEq, TokenKind.word.injEq, true_and] at heq
        obtain ⟨-, rfl, -⟩ := heq
        exact ⟨_, hcode⟩
    | operator => simp at heq

theorem UnitForm.code_of_bar {depth : Nat} {t w : String} {ks ls rest : List TokenKind} {s : Shape}
    (h : UnitForm depth ks s)
    (heq : ks ++ ls = .openBracket :: .word t :: .bar :: .word w :: rest) :
    ∃ code, lowerAscii w = ModifierCode.text code := by
  cases h with
  | bracket hb => exact hb.code_of_bar heq
  | parens => simp at heq

/-- A word that is written after a target and a bar is a code. -/
theorem ChainForm.code_of_bar {depth : Nat} {t w : String} {rest : List TokenKind} {s : Shape}
    (h : ChainForm depth (.openBracket :: .word t :: .bar :: .word w :: rest) s) :
    ∃ code, lowerAscii w = ModifierCode.text code := by
  generalize heq : TokenKind.openBracket :: .word t :: .bar :: .word w :: rest = ks at h
  cases h with
  | one hu => exact hu.code_of_bar ((List.append_nil _).trans heq.symm)
  | more hu _ => exact hu.code_of_bar heq.symm

end Grammar

namespace Action

open Grammar Token

theorem dot_not_mem_text (code : ModifierCode) : '.' ∉ code.text.toList := by
  cases code <;> decide

/-- No rule is a reference. -/
theorem reference?_eq_none {cs : List Char} {ks : List TokenKind} {depth : Nat} {s : Shape}
    (hlex : Lexes cs ks) (hchain : ChainForm depth ks s) : reference? cs = none := by
  rw [Option.eq_none_iff_forall_ne_some]
  intro p hp
  obtain ⟨target, path, hlex', hdot⟩ := lexes_reference hp
  obtain rfl := hlex.unique hlex'
  -- the path of the reference has a dot, and stands where the rule has a code
  obtain ⟨code, hcode⟩ := hchain.code_of_bar
  refine dot_not_mem_text code ?_
  rw [← hcode, lowerAscii, String.toList_ofList, List.mem_map]
  exact ⟨'.', hdot, by decide⟩

/-! ## Parameters -/

variable {cs : List Char} {ks : List TokenKind} {config : Config} {s : Shape} {t : Rule}

/-- A rule begins with a bracket or a parenthesis. -/
theorem head_of_lexes {c : Char} (hc : isSpace c = false) (hlex : Lexes (c :: cs) ks)
    (hchain : ChainForm config.maxDepth ks s) : c = '[' ∨ c = '(' := by
  obtain ⟨k, ls, rfl, hk⟩ := hchain.head
  cases hlex with
  | space hspace => simp [hc] at hspace
  | token _ hlexeme =>
    obtain ⟨-, hspelled⟩ := lexeme_spelled hc hlexeme
    generalize htext : c :: cs.take _ = text at hspelled
    rcases hk with rfl | rfl
    · cases hspelled
      exact .inl (List.cons.inj htext).1
    · cases hspelled
      exact .inr (List.cons.inj htext).1

theorem readParam_rule {nested : Nested} (hlex : Lexes cs ks)
    (hchain : ChainForm config.maxDepth ks s)
    (ht : Rule.compile config (String.ofList (trim cs)) = .ok t) (position : Nat) :
    readParam config nested (trim cs) position = .ok (.rule t) := by
  have hnone : reference? (trim cs) = none := reference?_eq_none hlex.trim hchain
  have hread : readBracketed config (trim cs) position = .ok (.rule t) := by
    rw [readBracketed, hnone]
    simp only [ht]
  have htrim : Lexes (trim cs) ks := hlex.trim
  cases hcs : trim cs with
  | nil =>
    rw [hcs] at htrim
    cases htrim
    exact absurd rfl hchain.ne_nil
  | cons c rest =>
    rw [hcs] at htrim hread
    have hhead := head_of_lexes (isSpace_of_trim_eq_cons hcs) htrim hchain
    unfold readParam
    rcases hhead with rfl | rfl <;> simpa using hread

theorem readsAs_rule {nested : Nested} (hlex : Lexes cs ks)
    (hchain : ChainForm config.maxDepth ks s)
    (ht : Rule.compile config (String.ofList (trim cs)) = .ok t) :
    ReadsAs config nested cs (.rule t) := by
  refine ⟨TopLevel.whole_rule hlex hchain, ?_, readParam_rule hlex hchain ht⟩
  intro hnil
  have htrim : Lexes (trim cs) ks := hlex.trim
  rw [hnil] at htrim
  cases htrim
  exact hchain.ne_nil rfl

theorem readParams_rule {nested : Nested} {kind : ActionKind} (hlex : Lexes cs ks)
    (hchain : ChainForm config.maxDepth ks s)
    (ht : Rule.compile config (String.ofList (trim cs)) = .ok t) (position : Nat) :
    readParams config nested kind cs position = .ok [.rule t] :=
  readParams_one (readsAs_rule hlex hchain ht) position

end Action

/-- A rule can be checked as it stands: its instruction is the check of the rule that the text
without white space around it holds. -/
theorem parse_check_of_compile (config : Config) (e : String) (r : Rule)
    (h : Rule.compile config e = .ok r) :
    ∃ t, Rule.compile config (strip e) = .ok t ∧ t.shape = r.shape ∧
      Instruction.parse config ("CHECK(" ++ e ++ ")") = .ok (.action
        { kind := .check, name := "CHECK", params := [.rule t], negative := false, isTest := false,
          source := "CHECK(" ++ e ++ ")" }) := by
  have hderives : Grammar.Derives config.maxDepth e r.shape := Grammar.compile_sound h
  obtain ⟨t, ht, hshape⟩ := Grammar.compile_complete hderives.strip
  refine ⟨t, ht, hshape, ?_⟩
  obtain ⟨ks, hlex, hchain⟩ := Grammar.derives_iff_lexes.1 hderives
  have hname : Action.IsName "CHECK".toList := ⟨by decide, List.all_eq_true.1 (by decide)⟩
  have htext : "CHECK(" ++ e ++ ")" = String.ofList (Action.call "CHECK".toList e.toList) := by
    have hchars : Action.call "CHECK".toList e.toList = ("CHECK(" ++ e ++ ")").toList := by
      simp [Action.call]
    rw [hchars, String.ofList_toList]
  rw [htext]
  refine Instruction.parse_call hname ?_ ?_
  · exact TopLevel.pieces_call hlex hchain hname.all_word 0
  · exact Action.readBody_call hname (by decide) (Action.readParams_rule hlex hchain ht _) rfl rfl

theorem parse_check_of_quotes_and_signs : ∃ r t,
    Rule.compile {} " [\"it's => )\"|in('a,b')]||[5] " = .ok r ∧
      Rule.compile {} (strip " [\"it's => )\"|in('a,b')]||[5] ") = .ok t ∧
      Instruction.parse {} ("CHECK(" ++ " [\"it's => )\"|in('a,b')]||[5] " ++ ")") = .ok (.action
        { kind := .check, name := "CHECK", params := [.rule t], negative := false, isTest := false,
          source := "CHECK(" ++ " [\"it's => )\"|in('a,b')]||[5] " ++ ")" }) := by
  have hok : (Rule.compile {} " [\"it's => )\"|in('a,b')]||[5] ").isOk = true := by decide +kernel
  obtain ⟨r, hr⟩ := exists_ok_of_isOk hok
  obtain ⟨t, ht, -, hparse⟩ := parse_check_of_compile {} _ r hr
  exact ⟨r, t, hr, ht, hparse⟩

end Rulebook
