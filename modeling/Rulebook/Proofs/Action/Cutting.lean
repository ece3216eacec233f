import Rulebook.Action.Split

/-!
# What is taken whole

While no separator is met at the top level, the characters passed over join the piece:

    Takes sep s cs rest stack opens

says so of the characters `cs` before `rest`, from the place `s` to a place outside quotes where
the openings in `stack` are left open.
-/

namespace Rulebook.TopLevel

open Text

/-- A place outside quotes.  `opens` promises that a token can begin there. -/
structure Ready (s : Scan) (stack : List Char) (opens : Bool) : Prop where
  skip : s.skip = 0
  quote : s.quote = none
  stack : s.stack.map Opening.char = stack
  opens : opens = true → opensToken s.last = true

theorem Ready.weaken {s : Scan} {stack : List Char} {opens : Bool} (h : Ready s stack opens) :
    Ready s stack false := ⟨h.skip, h.quote, h.stack, by simp⟩

/-- From `s`, all of `cs` joins the piece, and the place after it is outside quotes. -/
def Takes (sep : List Char) (s : Scan) (cs rest stack : List Char) (opens : Bool) : Prop :=
  ∃ s', piecesFrom sep s (cs ++ rest) = piecesFrom sep s' rest ∧ Ready s' stack opens ∧
    s'.piece = cs.reverse ++ s.piece ∧ s'.start = s.start

variable {sep cs ds rest stack stack' : List Char} {s : Scan} {opens opens' : Bool} {c : Char}

theorem Takes.nil (h : Ready s stack opens) : Takes sep s [] rest stack opens :=
  ⟨s, rfl, h, rfl, rfl⟩

theorem Takes.append (h : Takes sep s cs (ds ++ rest) stack opens)
    (h' : ∀ s', Ready s' stack opens → Takes sep s' ds rest stack' opens') :
    Takes sep s (cs ++ ds) rest stack' opens' := by
  obtain ⟨s₁, heq₁, hready₁, hpiece₁, hstart₁⟩ := h
  obtain ⟨s₂, heq₂, hready₂, hpiece₂, hstart₂⟩ := h' s₁ hready₁
  refine ⟨s₂, ?_, hready₂, ?_, hstart₂.trans hstart₁⟩
  · rw [List.append_assoc, heq₁, heq₂]
  · rw [hpiece₂, hpiece₁, List.reverse_append, List.append_assoc]

/-- One character that joins the piece, and more after it. -/
theorem Takes.cons (s' : Scan) (hstep : step sep s c (cs ++ rest) = .ok (none, s'.take c))
    (hpiece : s'.piece = s.piece) (hstart : s'.start = s.start)
    (h : Takes sep (s'.take c) cs rest stack opens) : Takes sep s (c :: cs) rest stack opens := by
  obtain ⟨s₁, heq, hready, hpiece₁, hstart₁⟩ := h
  refine ⟨s₁, ?_, hready, ?_, hstart₁.trans hstart⟩
  · rw [List.cons_append, piecesFrom, hstep]
    exact heq
  · show s₁.piece = (c :: cs).reverse ++ s.piece
    rw [hpiece₁, List.reverse_cons, List.append_assoc, ← hpiece]
    rfl

theorem Takes.one (s' : Scan) (hstep : step sep s c rest = .ok (none, s'.take c))
    (hready : Ready (s'.take c) stack opens) (hpiece : s'.piece = s.piece)
    (hstart : s'.start = s.start) : Takes sep s [c] rest stack opens :=
  .cons s' hstep hpiece hstart (.nil hready)

/-! ## Characters outside quotes -/

/-- A character that opens and closes nothing. -/
def IsPlain (c : Char) : Prop := c ∉ ['"', '\'', '(', '[', ')', ']']

/-- No cut is made at the character. -/
def Uncut (sep stack : List Char) (c : Char) : Prop :=
  stack ≠ [] ∨ ∀ rest, sep.isPrefixOf (c :: rest) = false

theorem Ready.take (h : Ready s stack opens)
    (hopens : opens' = true → if isSpace c then opens = true else opensToken (some c) = true) :
    Ready (s.take c) stack opens' where
  skip := h.skip
  quote := h.quote
  stack := h.stack
  opens := by
    intro ho
    have hc := hopens ho
    show opensToken (if isSpace c then s.last else some c) = true
    split at hc
    · next hspace =>
      rw [if_pos hspace]
      exact h.opens hc
    · next hspace =>
      rw [if_neg hspace]
      exact hc

theorem takes_plain (hplain : IsPlain c) (hcut : Uncut sep stack c) (h : Ready s stack opens)
    (hopens : opens' = true → if isSpace c then opens = true else opensToken (some c) = true) :
    Takes sep s [c] rest stack opens' := by
  refine Takes.one s ?_ (h.take hopens) rfl rfl
  simp only [IsPlain, List.mem_cons, List.not_mem_nil, or_false, not_or] at hplain
  have hcut' : ¬ (s.stack.isEmpty && sep.isPrefixOf (c :: rest)) = true := by
    rw [Bool.and_eq_true, not_and]
    intro hempty
    rcases hcut with hne | hsep
    · rw [← h.stack, List.isEmpty_iff.1 hempty] at hne
      exact absurd rfl hne
    · simp [hsep rest]
  unfold step
  simp only [h.skip, h.quote, hplain, if_neg hcut', Nat.lt_irrefl, if_false, false_and, or_self]

theorem takes_open (hc : c = '(' ∨ c = '[') (h : Ready s stack opens) :
    Takes sep s [c] rest (c :: stack) true := by
  have hspace : isSpace c = false := by rcases hc with rfl | rfl <;> decide
  have hopens : opensToken (some c) = true := by rcases hc with rfl | rfl <;> decide
  refine Takes.one { s with stack := ⟨c, s.position, c :: rest⟩ :: s.stack } ?_ ?_ rfl rfl
  · unfold step
    rcases hc with rfl | rfl <;> simp [h.skip, h.quote]
  · have hready : Ready { s with stack := ⟨c, s.position, c :: rest⟩ :: s.stack } (c :: stack)
        opens := ⟨h.skip, h.quote, by simp [h.stack], h.opens⟩
    exact hready.take fun _ => by simp [hspace, hopens]

/-- The closing character of an opening one. -/
def closing (c : Char) : Char := if c = '(' then ')' else ']'

theorem takes_close (hc : c = '(' ∨ c = '[') (h : Ready s (c :: stack) opens) :
    Takes sep s [closing c] rest stack false := by
  obtain ⟨o, os, hstack, rfl, hos⟩ := List.map_eq_cons_iff.1 h.stack
  refine Takes.one { s with stack := os } ?_ ?_ rfl rfl
  · unfold step
    rcases hc with hc | hc <;> simp [h.skip, h.quote, hstack, closing, closes, hc]
  · have hready : Ready { s with stack := os } stack opens := ⟨h.skip, h.quote, hos, h.opens⟩
    exact hready.take fun ho => by simp at ho

/-! ## Quotes -/

/-- The characters of a quotation after the one that opens it. -/
theorem takes_rest_of_quoted {o : Opening} (hnot : o.char ∉ cs) (hskip : s.skip = 0)
    (hquote : s.quote = some o) (hstack : s.stack.map Opening.char = stack) :
    Takes sep s (cs ++ [o.char]) rest stack false := by
  induction cs generalizing s with
  | nil =>
    refine Takes.one { s with quote := none } ?_ ?_ rfl rfl
    · simp [step, hskip, hquote]
    · exact ⟨hskip, rfl, hstack, by simp⟩
  | cons c cs ih =>
    have hc : c ≠ o.char := fun he => hnot (by simp [he])
    refine Takes.cons s ?_ rfl rfl (ih (fun hm => hnot (by simp [hm])) hskip hquote hstack)
    simp [step, hskip, hquote, hc]

theorem takes_quoted (hc : c = '"' ∨ c = '\'') (hnot : c ∉ cs) (h : Ready s stack true) :
    Takes sep s (c :: (cs ++ [c])) rest stack false := by
  let o : Opening := ⟨c, s.position, c :: (cs ++ [c] ++ rest)⟩
  refine Takes.cons { s with quote := some o } ?_ rfl rfl
    (takes_rest_of_quoted (o := o) hnot h.skip rfl h.stack)
  rcases hc with rfl | rfl <;> simp [step, h.skip, h.quote, h.opens rfl, o]

/-! ## Whole texts -/

/-- Where the text ends with nothing left open, the piece is its last. -/
theorem piecesFrom_end (h : Ready s [] opens) :
    piecesFrom sep s [] = .ok [⟨s.start, s.piece.reverse⟩] := by
  have hend : s.endError = none := by
    rw [Scan.endError, h.quote, List.map_eq_nil_iff.1 h.stack]
  rw [piecesFrom, hend]

theorem pieces_of_takes {position : Nat}
    (h : Takes sep { position, start := position } cs [] [] opens) :
    pieces sep position cs = .ok [⟨position, cs⟩] := by
  obtain ⟨s', heq, hready, hpiece, hstart⟩ := h
  rw [List.append_nil] at heq hpiece
  rw [pieces, heq, piecesFrom_end hready, hpiece, hstart, List.reverse_reverse]

end Rulebook.TopLevel
