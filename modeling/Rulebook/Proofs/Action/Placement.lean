import Rulebook.Proofs.Action.Balanced
import Rulebook.Proofs.Text.Slice

/-!
# Where pieces stand

A scan keeps the bytes it has passed over: what is left stands at its position, the piece so far
with what follows it where the piece began, and what was opened where it was (`Scan.Stands`).  So in
a text where `cs` stands at `base`,

    pieces sep base cs = .ok ps      each piece stands at its offset        (standsIn_of_pieces)
    pieces sep base cs = .error e    the fragment stands at the position    (pieces_startsIn)
-/

namespace Rulebook.TopLevel

open Text

/-- The piece is a slice of the text that starts at its offset. -/
def Piece.StandsIn (p : Piece) (text : List Char) : Prop :=
  ∃ stop, IsSlice text p.offset stop p.text

/-- The text from the opening on starts at its position. -/
def Opening.StandsIn (o : Opening) (text : List Char) : Prop :=
  ∃ stop, IsSlice text o.position stop o.text

/-- The scan is in the text before `left`, which ends at byte `stop`. -/
structure Scan.Stands (text : List Char) (stop : Nat) (s : Scan) (left : List Char) : Prop where
  rest : IsSlice text s.position stop left
  quote : ∀ o ∈ s.quote, o.StandsIn text
  stack : ∀ o ∈ s.stack, o.StandsIn text
  piece : IsSlice text s.start stop (s.piece.reverse ++ left.drop s.skip)

variable {text sep cs rest : List Char} {stop position : Nat} {s t : Scan} {c : Char}
  {ps : List Piece}

namespace Scan

theorem Stands.initial (h : IsSlice text position stop cs) :
    Stands text stop { position, start := position } cs :=
  ⟨h, nofun, nofun, h⟩

/-- Past one character. -/
theorem Stands.next (h : s.Stands text stop (c :: rest)) :
    IsSlice text (s.position + c.utf8Size) stop rest := by
  have hrest : IsSlice text s.position stop ([c] ++ rest) := h.rest
  exact hrest.back

theorem Stands.here (h : s.Stands text stop (c :: rest)) :
    Opening.StandsIn ⟨c, s.position, c :: rest⟩ text := ⟨stop, h.rest⟩

theorem Stands.take (h : s.Stands text stop (c :: rest)) (hskip : s.skip = 0)
    {quote : Option Opening} {stack : List Opening} (hquote : ∀ o ∈ quote, o.StandsIn text)
    (hstack : ∀ o ∈ stack, o.StandsIn text) :
    Stands text stop ({ s with quote, stack }.take c) rest := by
  refine ⟨h.next, hquote, hstack, ?_⟩
  have hpiece := h.piece
  rw [hskip, List.drop_zero] at hpiece
  show IsSlice text s.start stop ((c :: s.piece).reverse ++ rest.drop s.skip)
  rw [hskip, List.drop_zero, List.reverse_cons, List.append_assoc, List.singleton_append]
  exact hpiece

theorem Stands.skip (h : s.Stands text stop (c :: rest)) (hskip : 0 < s.skip) :
    Stands text stop { s.pass c with skip := s.skip - 1 } rest := by
  refine ⟨h.next, h.quote, h.stack, ?_⟩
  have hpiece := h.piece
  obtain ⟨n, hn⟩ := Nat.exists_eq_add_one_of_ne_zero (Nat.pos_iff_ne_zero.1 hskip)
  rw [hn, List.drop_succ_cons] at hpiece
  show IsSlice text s.start stop (s.piece.reverse ++ rest.drop (s.skip - 1))
  rw [hn]
  exact hpiece

/-- Past a separator, the piece begins behind it. -/
theorem Stands.cut (h : s.Stands text stop (c :: rest)) (hsep : sep <+: c :: rest)
    (hne : sep ≠ []) : Stands text stop
      { s.pass c with skip := sep.length - 1, piece := [],
                      start := s.position + byteLength sep } rest := by
  refine ⟨h.next, h.quote, h.stack, ?_⟩
  obtain ⟨d, ds, rfl⟩ := List.exists_cons_of_ne_nil hne
  obtain ⟨after, hafter⟩ := hsep
  obtain ⟨rfl, rfl⟩ := List.cons.inj hafter
  have hrest : IsSlice text s.position stop ((d :: ds) ++ after) := h.rest
  have hdrop : (ds ++ after).drop ((d :: ds).length - 1) = after := by simp
  show IsSlice text _ stop ([] ++ (ds ++ after).drop ((d :: ds).length - 1))
  rw [hdrop]
  exact hrest.back

/-- What is left open, or not opened, is the fragment of the error at the end. -/
theorem Stands.endError_startsIn (h : s.Stands text stop rest) {e : ParseError}
    (he : s.endError = some e) : e.StartsIn text := by
  unfold endError at he
  split at he
  · next o hquote =>
    cases he
    obtain ⟨b, ho⟩ := h.quote o hquote
    exact ⟨b, by rw [String.toList_ofList]; exact ho⟩
  · next o _ _ hstack =>
    cases he
    obtain ⟨b, ho⟩ := h.stack o (hstack ▸ List.mem_cons_self)
    exact ⟨b, by rw [String.toList_ofList]; exact ho⟩
  · cases he

end Scan

theorem step_stands (h : s.Stands text stop (c :: rest)) (hsep : sep ≠ []) {p? : Option Piece}
    (hstep : step sep s c rest = .ok (p?, t)) :
    t.Stands text stop rest ∧ ∀ p ∈ p?, p.StandsIn text := by
  unfold step at hstep
  by_cases hskip : 0 < s.skip
  · rw [if_pos hskip] at hstep
    cases hstep
    exact ⟨h.skip hskip, nofun⟩
  rw [if_neg hskip] at hstep
  have hzero : s.skip = 0 := Nat.eq_zero_of_not_pos hskip
  dsimp only at hstep
  split at hstep
  · cases hstep
    split
    · exact ⟨h.take hzero nofun h.stack, nofun⟩
    · exact ⟨h.take hzero h.quote h.stack, nofun⟩
  split at hstep
  · cases hstep
    exact ⟨h.take hzero (by rintro o ⟨⟩; exact h.here) h.stack, nofun⟩
  split at hstep
  · cases hstep
    exact ⟨h.take hzero h.quote (List.forall_mem_cons.2 ⟨h.here, h.stack⟩), nofun⟩
  split at hstep
  · split at hstep
    · next o stack hstack =>
      split at hstep
      · cases hstep
        have hopen : ∀ o ∈ stack, o.StandsIn text :=
          fun o ho => h.stack o (hstack ▸ List.mem_cons_of_mem _ ho)
        exact ⟨h.take hzero h.quote hopen, nofun⟩
      · cases hstep
    · cases hstep
  split at hstep
  · next hcut =>
    cases hstep
    have hprefix : sep <+: c :: rest :=
      List.isPrefixOf_iff_prefix.1 (Bool.and_eq_true_iff.1 hcut).2
    refine ⟨h.cut hprefix hsep, ?_⟩
    rintro p ⟨⟩
    exact ⟨_, h.piece.front⟩
  · cases hstep
    exact ⟨h.take hzero h.quote h.stack, nofun⟩

theorem step_startsIn (h : s.Stands text stop (c :: rest)) :
    OnError (·.StartsIn text) (step sep s c rest) := by
  have hunbalanced : ∀ cause : ParseCause,
      ParseError.StartsIn ⟨cause, String.ofList (c :: rest), s.position⟩ text :=
    fun _ => ⟨stop, by rw [String.toList_ofList]; exact h.rest⟩
  unfold step
  dsimp only
  repeat' split
  all_goals first | exact onError_ok _ | exact onError_error (hunbalanced _)

theorem piecesFrom_startsIn (h : s.Stands text stop cs) (hsep : sep ≠ []) :
    OnError (·.StartsIn text) (piecesFrom sep s cs) := by
  induction cs generalizing s with
  | nil =>
    rw [piecesFrom]
    split
    · next e he => exact onError_error (h.endError_startsIn he)
    · exact onError_ok _
  | cons c cs ih =>
    rw [piecesFrom]
    split
    · next e he => exact onError_error (step_startsIn h e he)
    · next t hstep => exact ih (step_stands h hsep hstep).1
    · next p t hstep =>
      split
      · exact onError_ok _
      · next e he => exact onError_error (ih (step_stands h hsep hstep).1 e he)

theorem standsIn_of_piecesFrom (h : s.Stands text stop cs) (hsep : sep ≠ [])
    (hps : piecesFrom sep s cs = .ok ps) : ∀ p ∈ ps, p.StandsIn text := by
  induction cs generalizing s ps with
  | nil =>
    rw [piecesFrom] at hps
    split at hps
    · cases hps
    · cases hps
      rw [List.forall_mem_singleton]
      exact ⟨_, h.piece.front⟩
  | cons c cs ih =>
    rw [piecesFrom] at hps
    split at hps
    · cases hps
    · next t hstep => exact ih (step_stands h hsep hstep).1 hps
    · next p t hstep =>
      obtain ⟨hstands, hp⟩ := step_stands h hsep hstep
      split at hps
      · next qs hqs =>
        cases hps
        exact List.forall_mem_cons.2 ⟨hp p rfl, ih hstands hqs⟩
      · cases hps

theorem pieces_startsIn (h : IsSlice text position stop cs) (hsep : sep ≠ []) :
    OnError (·.StartsIn text) (pieces sep position cs) :=
  piecesFrom_startsIn (.initial h) hsep

theorem standsIn_of_pieces (h : IsSlice text position stop cs) (hsep : sep ≠ [])
    (hps : pieces sep position cs = .ok ps) : ∀ p ∈ ps, p.StandsIn text :=
  standsIn_of_piecesFrom (.initial h) hsep hps

end Rulebook.TopLevel
