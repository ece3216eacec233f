import Rulebook.Action.Parse
import Rulebook.Proofs.Action.Balanced
import Rulebook.Proofs.Grammar.Lexing
import Rulebook.Proofs.Outcome

/-!
# What was read

When a reader of instructions succeeds, so did the readers of its parts.  Each lemma takes one
reader apart; the action of a text is taken apart down to its parameters.
-/

namespace Rulebook.Action

open Text Token

variable {config : Config} {nested : Nested} {cs : List Char} {position : Nat} {kind : ActionKind}
  {p : Param} {ps : List Param} {a : Action}

/-! ## Parameters -/

theorem between?_eq_some {o c : Char} {inner : List Char} (h : between? o c cs = some inner) :
    cs = o :: (inner ++ [c]) := by
  obtain ⟨rest, hrest, hinner⟩ := Option.bind_eq_some_iff.1 h
  rw [dropStart?_singleton hrest, dropLast?_eq_some hinner]

theorem isWord_iff {w : List Char} : isWord w = true ↔ w ≠ [] ∧ ∀ c ∈ w, isWordChar c = true := by
  simp [isWord]

/-- The text of a reference, white space apart. -/
theorem reference?_eq_some (h : reference? cs = some p) : ∃ target path,
    cs = '[' :: (target ++ '|' :: path ++ [']']) ∧ isWord (trim target) = true ∧
      (∀ c ∈ trim path, IsNameChar c) ∧ '.' ∈ trim path ∧
      ∃ object property, p = .reference object property := by
  obtain ⟨inner, hinner, h⟩ := Option.bind_eq_some_iff.1 h
  obtain ⟨⟨target, path⟩, hpath, h⟩ := Option.bind_eq_some_iff.1 h
  obtain ⟨⟨object, property⟩, hproperty, h⟩ := Option.bind_eq_some_iff.1 h
  dsimp only at h
  split at h
  · next hwords =>
    obtain rfl := Option.some.inj h
    simp only [Bool.and_eq_true, List.all_eq_true] at hwords
    obtain ⟨⟨htarget, hobject⟩, hparts⟩ := hwords
    obtain ⟨rfl, -⟩ := cutOnce_eq_some hpath
    obtain ⟨htrim, -⟩ := cutOnce_eq_some hproperty
    refine ⟨target, path, between?_eq_some hinner, htarget, ?_, by simp [htrim], _, _, rfl⟩
    intro c hc
    rw [htrim, List.mem_append, List.mem_cons] at hc
    rcases hc with hc | rfl | hc
    · exact .inl ((isWord_iff.1 hobject).2 c hc)
    · exact .inr rfl
    · rcases mem_pieces '.' hc with rfl | ⟨part, hpart, hc⟩
      · exact .inr rfl
      · exact .inl ((isWord_iff.1 (hparts part hpart)).2 c hc)
  · cases h

/-- What a parameter can be: a literal, a reference, a rule, or an action that was read inside. -/
theorem readParam_ok (h : readParam config nested cs position = .ok p) :
    (∃ v, p = .literal v) ∨ (∃ object property, p = .reference object property) ∨
      (∃ text r, Rule.compile config text = .ok r ∧ p = .rule r) ∨
      ∃ a, nested cs position = .ok a ∧ p = .action a := by
  unfold readParam at h
  dsimp only at h
  split at h
  · unfold readQuoted at h
    split at h
    · cases h
      exact .inl ⟨_, rfl⟩
    · cases h
  · split at h
    · unfold readBracketed at h
      split at h
      · next q hq =>
        cases h
        obtain ⟨-, -, -, -, -, -, hp⟩ := reference?_eq_some hq
        exact .inr (.inl hp)
      · split at h
        · next r hr =>
          cases h
          exact .inr (.inr (.inl ⟨_, r, hr, rfl⟩))
        · cases h
    · split at h
      · obtain ⟨a, ha, rfl⟩ := map_ok_iff.1 h
        exact .inr (.inr (.inr ⟨a, ha, rfl⟩))
      · cases h
        exact .inl ⟨_, rfl⟩

theorem readPieces_ok {pieces : List TopLevel.Piece}
    (h : readPieces config nested kind pieces = .ok ps) :
    ∀ p ∈ ps, ∃ piece ∈ pieces, ∃ position,
      readParam config nested (trim piece.text) position = .ok p := by
  induction pieces generalizing ps with
  | nil =>
    cases h
    intro p hp
    cases hp
  | cons piece pieces ih =>
    rw [readPieces] at h
    dsimp only at h
    split at h
    · cases h
    · obtain ⟨q, hq, h⟩ := bind_ok_iff.1 h
      obtain ⟨qs, hqs, h⟩ := bind_ok_iff.1 h
      cases h
      intro p hp
      rcases List.mem_cons.1 hp with rfl | hp
      · exact ⟨piece, List.mem_cons_self, _, hq⟩
      · obtain ⟨piece', hpiece', hread⟩ := ih hqs p hp
        exact ⟨piece', List.mem_cons_of_mem _ hpiece', hread⟩

theorem readParams_ok (h : readParams config nested kind cs position = .ok ps) :
    ∀ p ∈ ps, ∃ cs' position', cs' <:+: cs ∧ readParam config nested cs' position' = .ok p := by
  unfold readParams at h
  split at h
  · cases h
    intro p hp
    cases hp
  · obtain ⟨pieces, hpieces, h⟩ := bind_ok_iff.1 h
    intro p hp
    obtain ⟨piece, hpiece, position', hread⟩ := readPieces_ok h p hp
    have hinfix := TopLevel.infix_of_pieces (List.cons_ne_nil _ _) hpieces hpiece
    exact ⟨_, position', (infix_trim _).trans hinfix, hread⟩

theorem readParamList_ok (h : readParamList config nested kind cs position = .ok ps) :
    ∀ p ∈ ps, ∃ cs' position', cs' <:+: cs ∧ readParam config nested cs' position' = .ok p := by
  unfold readParamList at h
  split at h
  · cases h
    intro p hp
    cases hp
  · dsimp only at h
    split at h
    · cases h
    · next inner hinner =>
      have hargs : trim cs = '(' :: (inner ++ [')']) := between?_eq_some hinner
      have hinner : inner <:+: cs := by
        have hmiddle : inner <:+: '(' :: (inner ++ [')']) := ⟨['('], [')'], rfl⟩
        exact (hargs ▸ hmiddle).trans (infix_trim cs)
      intro p hp
      obtain ⟨cs', position', hinfix, hread⟩ := readParams_ok h p hp
      exact ⟨cs', position', hinfix.trans hinner, hread⟩

/-! ## Actions -/

/-- When a text is an action: its name is that of a kind, and its parameters are right for it. -/
theorem readBody_ok_iff : readBody config nested cs position = .ok a ↔
    let (negative, rest) := readMarks cs
    let name := rest.takeWhile isWordChar
    let start := position + (byteLength cs - byteLength rest)
    name ≠ [] ∧ ∃ kind params, ActionKind.ofName? (String.ofList name) = some kind ∧
      readParamList config nested kind (rest.drop name.length) (start + byteLength name) =
        .ok params ∧
      kind.admits params.length = true ∧ misplaced? kind params = none ∧
      a = { kind, name := String.ofList name, params, negative, isTest := false,
            source := String.ofList cs } := by
  unfold readBody
  generalize readMarks cs = marks
  obtain ⟨negative, rest⟩ := marks
  dsimp only
  generalize rest.takeWhile isWordChar = name
  by_cases hname : name = []
  · simp [hname, bind, Except.bind]
  rw [if_neg (by simpa using hname)]
  cases hkind : ActionKind.ofName? (String.ofList name) with
  | none => simp
  | some kind =>
    constructor
    · intro h
      obtain ⟨params, hparams, h⟩ := bind_ok_iff.1 h
      split at h
      · cases h
      · next hcount =>
        split at h
        · cases h
        · next hplaces =>
          cases h
          exact ⟨hname, kind, params, rfl, hparams, by simpa using hcount, hplaces, rfl⟩
    · rintro ⟨-, _, params, ⟨⟩, hparams, hcount, hplaces, rfl⟩
      refine bind_ok_iff.2 ⟨params, hparams, ?_⟩
      simp [hcount, hplaces, pure, Except.pure]

theorem readMarks_suffix (cs : List Char) : (readMarks cs).2 <:+ cs := by
  induction cs with
  | nil => exact List.suffix_rfl
  | cons c cs ih =>
    rw [readMarks]
    split
    · exact ih.trans (List.suffix_cons c cs)
    · split
      · exact ih.trans (List.suffix_cons c cs)
      · exact List.suffix_rfl

/-- An action is what its text says, with as many parameters as its kind takes, actions among them
where it must have them. -/
theorem readBody_ok (h : readBody config nested cs position = .ok a) :
    (∀ p ∈ a.params, ∃ cs' position', cs' <:+: cs ∧
        readParam config nested cs' position' = .ok p) ∧
      a.kind.admits a.params.length = true ∧ misplaced? a.kind a.params = none ∧
      a.isTest = false ∧ a.source = String.ofList cs := by
  obtain ⟨-, kind, params, -, hparams, hcount, hplaces, rfl⟩ := readBody_ok_iff.1 h
  refine ⟨fun p hp => ?_, hcount, hplaces, rfl, rfl⟩
  obtain ⟨cs', position', hinfix, hread⟩ := readParamList_ok hparams p hp
  exact ⟨cs', position',
    hinfix.trans ((List.drop_suffix _ _).trans (readMarks_suffix cs)).isInfix, hread⟩

theorem exists_readBody {levels : Nat} (h : read config (levels + 1) cs position = .ok a) :
    ∃ start, readBody config (read config levels) (trim cs) start = .ok a := by
  rw [read] at h
  dsimp only at h
  split at h
  · cases h
  · exact ⟨_, h⟩

end Rulebook.Action

namespace Rulebook.Instruction

variable {config : Config} {i : Instruction} {a : Action}

theorem readParts_ok {pieces : List TopLevel.Piece} {as : List Action}
    (h : readParts config pieces = .ok as) : ∀ a ∈ as, ∃ piece ∈ pieces,
      Action.read config (config.maxDepth + 1) piece.text piece.offset = .ok a := by
  induction pieces generalizing as with
  | nil =>
    cases h
    intro a ha
    cases ha
  | cons piece pieces ih =>
    rw [readParts] at h
    obtain ⟨b, hb, h⟩ := bind_ok_iff.1 h
    obtain ⟨bs, hbs, h⟩ := bind_ok_iff.1 h
    cases h
    intro a ha
    rcases List.mem_cons.1 ha with rfl | ha
    · exact ⟨piece, List.mem_cons_self, hb⟩
    · obtain ⟨piece', hpiece', hread⟩ := ih hbs a ha
      exact ⟨piece', List.mem_cons_of_mem _ hpiece', hread⟩

/-- The actions of a chain are those read, the first perhaps as a test. -/
theorem ofChain_ok {as : List Action} {rest : ParseError} (h : ofChain as rest = .ok i) :
    ∀ a ∈ i.actions, ∃ b ∈ as, a = b ∨ a = { b with isTest := true } := by
  unfold ofChain at h
  split at h
  · cases h
    simp [actions]
  · cases h
    simp [actions]
  · cases h
    simp [actions]
  · cases h

theorem parse_ok {text : String} (h : parse config text = .ok i) :
    ∀ a ∈ i.actions, ∃ b cs position, cs <:+: text.toList ∧
      Action.read config (config.maxDepth + 1) cs position = .ok b ∧
        (a = b ∨ a = { b with isTest := true }) := by
  unfold parse at h
  dsimp only at h
  split at h
  · cases h
  · obtain ⟨pieces, hpieces, h⟩ := bind_ok_iff.1 h
    obtain ⟨as, has, h⟩ := bind_ok_iff.1 h
    intro a ha
    obtain ⟨b, hb, heq⟩ := ofChain_ok h a ha
    obtain ⟨piece, hpiece, hread⟩ := readParts_ok has b hb
    have hinfix := TopLevel.infix_of_pieces (List.cons_ne_nil _ _) hpieces hpiece
    exact ⟨b, piece.text, piece.offset, hinfix, hread, heq⟩

/-- A single action of which `P` holds. -/
def isActionWith (P : Action → Prop) [DecidablePred P] : Except ParseError Instruction → Bool
  | .ok (.action a) => decide (P a)
  | _ => false

theorem exists_of_isActionWith {P : Action → Prop} [DecidablePred P]
    {x : Except ParseError Instruction} (h : isActionWith P x = true) :
    ∃ a, x = .ok (.action a) ∧ P a := by
  unfold isActionWith at h
  split at h
  · exact ⟨_, rfl, of_decide_eq_true h⟩
  · cases h

end Rulebook.Instruction
