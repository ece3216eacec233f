import Rulebook.Action.Parse
import Rulebook.Proofs.Grammar.Lexing
import Rulebook.Proofs.Outcome

/-!
# Calls

The text `NAME(inner)` is read as the action of that name on the parameters that `inner` holds.
-/

namespace Rulebook.Action

open Text

variable {cs inner name : List Char} {c : Char} {position : Nat}

/-- A name, and in parentheses after it a text. -/
def call (name inner : List Char) : List Char := name ++ ('(' :: (inner ++ [')']))

/-- A call, negated `n` times. -/
def marked (n : Nat) (name inner : List Char) : List Char := List.replicate n '!' ++ call name inner

/-- What actions are named by. -/
structure IsName (name : List Char) : Prop where
  ne_nil : name ≠ []
  all_word : ∀ c ∈ name, isWordChar c = true

theorem between?_append (o c : Char) (inner : List Char) :
    between? o c (o :: (inner ++ [c])) = some inner := by
  simp [between?, dropStart?, List.isPrefixOf, dropLast?]

theorem trimFrom_eq_self (h : trim cs = cs) : trimFrom position cs = (position, cs) := by
  have hstart : trimStart cs = cs := by rw [← h, trimStart_trim]
  have hend : trimEnd cs = cs := by rwa [trim, hstart] at h
  rw [trimFrom, hstart, hend, Nat.sub_self]
  rfl

theorem readMarks_cons (hc : c ≠ '!') (hspace : isSpace c = false) :
    readMarks (c :: cs) = (false, c :: cs) := by
  rw [readMarks, if_neg hc, if_neg (by simp [hspace])]

theorem takeWhile_call (hname : IsName name) : (call name inner).takeWhile isWordChar = name := by
  rw [call, List.takeWhile_append_of_pos hname.all_word, List.takeWhile_cons_of_neg (by decide),
    List.append_nil]

theorem IsName.exists_cons (hname : IsName name) : ∃ c cs, name = c :: cs ∧ c ≠ '!' ∧
    isSpace c = false := by
  obtain ⟨c, cs, rfl⟩ := List.exists_cons_of_ne_nil hname.ne_nil
  have hc : isWordChar c = true := hname.all_word c (by simp)
  refine ⟨c, cs, rfl, ?_, (Token.IsNameChar.plain (.inl hc)).1⟩
  rintro rfl
  exact absurd hc (by decide)

theorem trim_marked (hname : IsName name) (n : Nat) :
    trim (marked n name inner) = marked n name inner := by
  obtain ⟨c, back, hc, hstart⟩ : ∃ c back, isSpace c = false ∧ marked n name inner = c :: back := by
    obtain ⟨c, cs, rfl, -, hspace⟩ := hname.exists_cons
    cases n with
    | zero => exact ⟨c, _, hspace, rfl⟩
    | succ n => exact ⟨'!', _, by decide, rfl⟩
  have hend : marked n name inner = (List.replicate n '!' ++ (name ++ '(' :: inner)) ++ [')'] := by
    simp [marked, call]
  exact trim_eq_self_of_ends hc (by decide) hstart hend

theorem trim_call (hname : IsName name) : trim (call name inner) = call name inner :=
  trim_marked hname 0

theorem paren_mem_marked (n : Nat) : '(' ∈ marked n name inner := by simp [marked, call]

variable {config : Config} {nested : Nested} {kind : ActionKind} {params : List Param}

theorem readParamList_parens : readParamList config nested kind ('(' :: (inner ++ [')'])) position =
    readParams config nested kind inner (position + 1) := by
  have hblank : isBlank ('(' :: (inner ++ [')'])) = false := by
    rw [isBlank, List.all_cons]
    rfl
  have htrim : trim ('(' :: (inner ++ [')'])) = '(' :: (inner ++ [')']) :=
    trim_eq_self_of_ends (by decide) (by decide) rfl (List.cons_append ..).symm
  rw [readParamList, hblank, trimFrom_eq_self htrim]
  simp only [between?_append, Bool.false_eq_true, if_false]

/-- A call is the action of its name. -/
theorem readBody_call (hname : IsName name)
    (hkind : ActionKind.ofName? (String.ofList name) = some kind)
    (hparams : readParams config nested kind inner (position + byteLength name + 1) = .ok params)
    (hcount : kind.admits params.length = true) (hplaces : misplaced? kind params = none) :
    readBody config nested (call name inner) position = .ok
      { kind, name := String.ofList name, params, negative := false, isTest := false,
        source := String.ofList (call name inner) } := by
  have hmarks : readMarks (call name inner) = (false, call name inner) := by
    obtain ⟨c, cs, rfl, hc, hspace⟩ := hname.exists_cons
    exact readMarks_cons hc hspace
  have hempty : name.isEmpty = false := by simp [hname.ne_nil]
  have hafter : (call name inner).drop name.length = '(' :: (inner ++ [')']) := List.drop_left
  unfold readBody
  simp only [hmarks, Nat.sub_self, Nat.add_zero, takeWhile_call hname, hempty, hkind, hafter,
    readParamList_parens, hparams, hcount, hplaces, Bool.false_eq_true, if_false, Bool.not_true,
    bind, Except.bind, pure, Except.pure]

/-- A text without white space around it is read as it is. -/
theorem read_of_trim {levels : Nat} (htrim : trim cs = cs) (hne : cs ≠ []) :
    read config (levels + 1) cs position = readBody config (read config levels) cs position := by
  rw [read, trimFrom_eq_self htrim]
  simp only [List.isEmpty_iff, hne, if_false]

end Rulebook.Action

namespace Rulebook.Instruction

open Rulebook.Action Text

/-- A text that is one piece is the instruction of its action alone. -/
theorem parse_of_trim {config : Config} {cs : List Char} {a : Action} (htrim : trim cs = cs)
    (hne : cs ≠ []) (hpieces : TopLevel.pieces ['=', '>'] 0 cs = .ok [⟨0, cs⟩])
    (h : readBody config (read config config.maxDepth) cs 0 = .ok a) :
    parse config (String.ofList cs) = .ok (.action a) := by
  have hblank : isBlank cs = false := isBlank_eq_false (by rwa [htrim])
  have hread : read config (config.maxDepth + 1) cs 0 = .ok a := by rwa [read_of_trim htrim hne]
  unfold parse
  simp only [String.toList_ofList, hblank, hpieces, readParts, hread, ofChain, Bool.false_eq_true,
    if_false, bind, Except.bind, pure, Except.pure]

/-- So it is when it is a call. -/
theorem parse_call {config : Config} {name inner : List Char} {a : Action} (hname : IsName name)
    (hpieces : TopLevel.pieces ['=', '>'] 0 (call name inner) = .ok [⟨0, call name inner⟩])
    (h : readBody config (read config config.maxDepth) (call name inner) 0 = .ok a) :
    parse config (String.ofList (call name inner)) = .ok (.action a) :=
  parse_of_trim (trim_call hname) (List.ne_nil_of_mem (paren_mem_marked 0)) hpieces h

end Rulebook.Instruction
