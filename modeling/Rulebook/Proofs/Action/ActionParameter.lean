import Rulebook.Proofs.Action.Again
import Rulebook.Proofs.Action.Joined
import Rulebook.Proofs.Action.Spelling

/-!
# Actions as parameters

An action with parentheses can stand in the parentheses of another, where it is the same action:

    parse config s = .ok (.action a),  a.height < config.maxDepth
      →  parse config "CHECK(s)" is the check of a

but for one way of writing it.  Where white space stands between its exclamation marks, the action
is not recognised as one, and its text becomes a literal.
-/

namespace Rulebook

open Text

namespace Action

variable {config : Config} {nested nested' : Nested} {kind : ActionKind} {cs : List Char}
  {position : Nat} {a : Action}

theorem readParam_action (h : readBody config nested cs position = .ok a) (hparen : '(' ∈ cs)
    (position' : Nat) (hagain : nested' cs position' = .ok a) :
    readParam config nested' cs position' = .ok
      (if MarksApart cs then .literal (.literal (String.ofList cs)) else .action a) := by
  have hlooks := looksLikeAction_of_readBody h hparen
  obtain ⟨c, rest, rfl, hc⟩ := exists_cons_of_readBody h hparen
  simp only [TopLevel.marks, List.mem_cons, List.not_mem_nil, or_false, not_or] at hc
  unfold readParam
  simp only [List.headD_cons, hc, or_self, if_false, hlooks, hagain]
  by_cases hapart : MarksApart (c :: rest)
  · simp [hapart]
  · simp [hapart, Except.map]

/-- The action of a text with parentheses is a parameter too, unless its marks are apart. -/
theorem readsAs_action (h : readBody config nested (trim cs) position = .ok a)
    (hparen : '(' ∈ cs) (hagain : ∀ position', nested' (trim cs) position' = .ok a) :
    ReadsAs config nested' cs
      (if MarksApart (trim cs) then .literal (.literal (String.ofList (trim cs)))
        else .action a) := by
  have hparen' : '(' ∈ trim cs := (mem_trim_iff (by decide)).2 hparen
  exact ⟨whole_of_readBody h, List.ne_nil_of_mem hparen',
    fun position' => readParam_action h hparen' position' (hagain position')⟩

theorem readParams_action (h : readBody config nested (trim cs) position = .ok a)
    (hparen : '(' ∈ cs) (position' : Nat)
    (hagain : ∀ position', nested' (trim cs) position' = .ok a) :
    readParams config nested' kind cs position' = .ok
      [if MarksApart (trim cs) then .literal (.literal (String.ofList (trim cs)))
        else .action a] :=
  readParams_one (readsAs_action h hparen hagain) position'

end Action

namespace Instruction

variable {config : Config} {a : Action}

theorem readParts_nil {pieces : List TopLevel.Piece} (h : readParts config pieces = .ok []) :
    pieces = [] := by
  cases pieces with
  | nil => rfl
  | cons p ps =>
    obtain ⟨b, -, h⟩ := bind_ok_iff.1 h
    obtain ⟨bs, -, h⟩ := bind_ok_iff.1 h
    cases h

theorem readParts_singleton {pieces : List TopLevel.Piece}
    (h : readParts config pieces = .ok [a]) : ∃ p, pieces = [p] ∧
      Action.read config (config.maxDepth + 1) p.text p.offset = .ok a := by
  cases pieces with
  | nil => cases h
  | cons p ps =>
    obtain ⟨b, hb, h⟩ := bind_ok_iff.1 h
    obtain ⟨bs, hbs, h⟩ := bind_ok_iff.1 h
    cases h
    rw [readParts_nil hbs]
    exact ⟨p, rfl, hb⟩

theorem ofChain_action {as : List Action} {rest : ParseError}
    (h : ofChain as rest = .ok (.action a)) : as = [a] := by
  unfold ofChain at h
  split at h <;> cases h
  rfl

/-- A single action is what is read from the whole text. -/
theorem exists_read_of_parse {s : String} (h : parse config s = .ok (.action a)) :
    ∃ position, Action.read config (config.maxDepth + 1) s.toList position = .ok a := by
  unfold parse at h
  dsimp only at h
  split at h
  · cases h
  · obtain ⟨pieces, hpieces, h⟩ := bind_ok_iff.1 h
    obtain ⟨as, has, h⟩ := bind_ok_iff.1 h
    rw [ofChain_action h] at has
    obtain ⟨p, rfl, hread⟩ := readParts_singleton has
    rw [TopLevel.text_of_pieces (by simp) hpieces] at hread
    exact ⟨p.offset, hread⟩

end Instruction

/-- An action with parentheses, nested below the limit, can be checked as it stands.  Its check has
the action for its parameter, unless white space stands between the marks that negate it. -/
theorem parse_check_of_action (config : Config) (s : String) (a : Action)
    (h : Instruction.parse config s = .ok (.action a)) (hparen : '(' ∈ s.toList)
    (hheight : a.height < config.maxDepth) :
    Instruction.parse config ("CHECK(" ++ s ++ ")") = .ok (.action
      { kind := .check, name := "CHECK",
        params := [if Action.MarksApart (trim s.toList) then .literal (.literal (strip s))
          else .action a],
        negative := false, isTest := false, source := "CHECK(" ++ s ++ ")" }) := by
  obtain ⟨position, hread⟩ := Instruction.exists_read_of_parse h
  obtain ⟨start, hbody⟩ := Action.exists_readBody hread
  have hagain : ∀ position,
      Action.read config config.maxDepth (trim s.toList) position = .ok a :=
    fun _ => Action.read_again hread hheight (trim_trim s.toList)
  have hname : Action.IsName "CHECK".toList := ⟨by decide, List.all_eq_true.1 (by decide)⟩
  have htext : "CHECK(" ++ s ++ ")" = String.ofList (Action.call "CHECK".toList s.toList) := by
    have hchars : Action.call "CHECK".toList s.toList = ("CHECK(" ++ s ++ ")").toList := by
      simp [Action.call]
    rw [hchars, String.ofList_toList]
  rw [htext]
  refine Instruction.parse_call hname ?_ ?_
  · exact (Action.whole_of_readBody hbody).pieces_call hname.all_word 0
  · exact Action.readBody_call hname (by decide)
      (Action.readParams_action hbody hparen _ hagain) rfl rfl

theorem parse_check_of_quotes_and_marks : ∃ a,
    Instruction.parse {} " ! SWITCH(\"a(\", SET('x,y')) " = .ok (.action a) ∧
      '(' ∈ " ! SWITCH(\"a(\", SET('x,y')) ".toList ∧ a.height < 32 ∧
      Instruction.parse {} ("CHECK(" ++ " ! SWITCH(\"a(\", SET('x,y')) " ++ ")") = .ok (.action
        { kind := .check, name := "CHECK", params := [.action a], negative := false,
          isTest := false, source := "CHECK(" ++ " ! SWITCH(\"a(\", SET('x,y')) " ++ ")" }) := by
  obtain ⟨a, ha, hheight⟩ := Instruction.exists_of_isActionWith (P := fun a => a.height < 32)
    (x := Instruction.parse {} " ! SWITCH(\"a(\", SET('x,y')) ") (by decide +kernel)
  have hparen : '(' ∈ " ! SWITCH(\"a(\", SET('x,y')) ".toList := by decide
  have hcheck := parse_check_of_action {} _ a ha hparen hheight
  rw [if_neg (by decide)] at hcheck
  exact ⟨a, ha, hparen, hheight, hcheck⟩

/-- An action negated twice, with white space between the marks, is no action as a parameter. -/
theorem parse_check_of_marks_apart : ∃ a b,
    Instruction.parse {} "! !CHECK(true)" = .ok (.action a) ∧ '(' ∈ "! !CHECK(true)".toList ∧
      a.height < 32 ∧
      Instruction.parse {} ("CHECK(" ++ "! !CHECK(true)" ++ ")") = .ok (.action b) ∧
      b.params.map (fun p => (Action.isAction p, p.text)) = [(false, "\"! !CHECK(true)\"")] := by
  obtain ⟨a, ha, hheight⟩ := Instruction.exists_of_isActionWith (P := fun a => a.height < 32)
    (x := Instruction.parse {} "! !CHECK(true)") (by decide +kernel)
  obtain ⟨b, hb, hparams⟩ := Instruction.exists_of_isActionWith
    (P := fun b => b.params.map (fun p => (Action.isAction p, p.text)) =
      [(false, "\"! !CHECK(true)\"")])
    (x := Instruction.parse {} ("CHECK(" ++ "! !CHECK(true)" ++ ")")) (by decide +kernel)
  exact ⟨a, b, ha, by decide, hheight, hb, hparams⟩

end Rulebook
