import Rulebook.Proofs.Action.Cuts
import Rulebook.Proofs.Action.Reading

/-!
# Reading an action elsewhere

What is read does not depend on where the text stands, on the white space around it, or on how many
levels are left, as long as they suffice:

    read config levels cs position = .ok a,  a.height < levels',  trim cs' = trim cs
      →  read config levels' cs' position' = .ok a
-/

namespace Rulebook.Action

open Text

/-! ## Nesting -/

mutual

/-- How many actions are around the innermost. -/
def height : Action → Nat
  | ⟨_, _, params, _, _, _⟩ => paramsHeight params

def paramsHeight : List (ParamOf Action) → Nat
  | [] => 0
  | p :: ps => max (paramHeight p) (paramsHeight ps)

/-- The actions around the innermost of a parameter, with the one that has the parameter. -/
def paramHeight : ParamOf Action → Nat
  | .action a => height a + 1
  | .literal _ | .reference _ _ | .rule _ => 0

end

variable {a b : Action} {p : Param} {ps qs : List Param}

theorem paramHeight_le (h : p ∈ ps) : paramHeight p ≤ paramsHeight ps := by
  induction ps with
  | nil => cases h
  | cons q ps ih =>
    rw [paramsHeight]
    rcases List.mem_cons.1 h with rfl | h
    · exact Nat.le_max_left _ _
    · exact Nat.le_trans (ih h) (Nat.le_max_right _ _)

theorem paramsHeight_le {n : Nat} (h : ∀ p ∈ ps, paramHeight p ≤ n) : paramsHeight ps ≤ n := by
  induction ps with
  | nil => exact Nat.zero_le n
  | cons p ps ih =>
    obtain ⟨hp, hps⟩ := List.forall_mem_cons.1 h
    exact Nat.max_le.2 ⟨hp, ih hps⟩

/-- An action is higher than those in its parameters. -/
theorem height_lt_of_mem (h : .action b ∈ a.params) : b.height < a.height := by
  obtain ⟨kind, name, params, negative, isTest, source⟩ := a
  have hle : paramHeight (.action b) ≤ paramsHeight params := paramHeight_le h
  rwa [paramHeight] at hle

/-! ## Parameters -/

variable {config : Config} {nested nested' : Nested} {kind : ActionKind} {cs cs' : List Char}
  {position position' : Nat}

/-- Where the first reader finds the action, the second does so at any position. -/
def Again (nested nested' : Nested) (a : Action) : Prop :=
  ∀ cs position position', nested cs position = .ok a → nested' cs position' = .ok a

theorem readQuoted_again {quote : Char} (h : readQuoted quote cs position = .ok p) :
    readQuoted quote cs position' = .ok p := by
  unfold readQuoted at h ⊢
  split at h
  · exact h
  · cases h

theorem readBracketed_again (h : readBracketed config cs position = .ok p) :
    readBracketed config cs position' = .ok p := by
  unfold readBracketed at h ⊢
  split at h
  · exact h
  · split at h
    · exact h
    · cases h

theorem readParam_again (hagain : ∀ a, p = .action a → Again nested nested' a)
    (h : readParam config nested cs position = .ok p) (position' : Nat) :
    readParam config nested' cs position' = .ok p := by
  unfold readParam at h ⊢
  dsimp only at h ⊢
  split at h
  · next hquote =>
    rw [if_pos hquote]
    exact readQuoted_again h
  · next hquote =>
    rw [if_neg hquote]
    split at h
    · next hbracket =>
      rw [if_pos hbracket]
      exact readBracketed_again h
    · next hbracket =>
      rw [if_neg hbracket]
      split at h
      · next hlooks =>
        obtain ⟨a, ha, rfl⟩ := map_ok_iff.1 h
        rw [if_pos hlooks]
        exact map_ok_iff.2 ⟨a, hagain a rfl _ _ _ ha, rfl⟩
      · next hlooks =>
        rw [if_neg hlooks]
        exact h

theorem readPieces_again {pieces pieces' : List TopLevel.Piece}
    (hagain : ∀ a, .action a ∈ ps → Again nested nested' a)
    (htexts : pieces'.map TopLevel.Piece.text = pieces.map TopLevel.Piece.text)
    (h : readPieces config nested kind pieces = .ok ps) :
    readPieces config nested' kind pieces' = .ok ps := by
  induction pieces generalizing pieces' ps with
  | nil =>
    obtain rfl := List.map_eq_nil_iff.1 htexts
    exact h
  | cons piece pieces ih =>
    obtain ⟨piece', pieces', rfl, htext, htexts⟩ := List.map_eq_cons_iff.1 htexts
    rw [readPieces] at h ⊢
    dsimp only [trimFrom] at h ⊢
    rw [htext]
    split at h
    · cases h
    · next hempty =>
      rw [if_neg hempty]
      obtain ⟨q, hq, h⟩ := bind_ok_iff.1 h
      obtain ⟨qs, hqs, h⟩ := bind_ok_iff.1 h
      cases h
      have hq' := readParam_again (fun a ha => hagain a (by simp [ha])) hq
      have hqs' := ih (fun a ha => hagain a (by simp [ha])) htexts hqs
      exact bind_ok_iff.2 ⟨q, hq' _, bind_ok_iff.2 ⟨qs, hqs', rfl⟩⟩

theorem readParams_again (hagain : ∀ a, .action a ∈ ps → Again nested nested' a)
    (h : readParams config nested kind cs position = .ok ps) :
    readParams config nested' kind cs position' = .ok ps := by
  unfold readParams at h ⊢
  split at h
  · next hblank =>
    rw [if_pos hblank]
    exact h
  · next hblank =>
    rw [if_neg hblank]
    obtain ⟨pieces, hpieces, h⟩ := bind_ok_iff.1 h
    obtain ⟨pieces', hpieces', htexts⟩ := TopLevel.pieces_moved hpieces position'
    exact bind_ok_iff.2 ⟨pieces', hpieces', readPieces_again hagain htexts h⟩

theorem readParamList_again (hagain : ∀ a, .action a ∈ ps → Again nested nested' a)
    (h : readParamList config nested kind cs position = .ok ps) :
    readParamList config nested' kind cs position' = .ok ps := by
  unfold readParamList at h ⊢
  split at h
  · next hblank =>
    rw [if_pos hblank]
    exact h
  · next hblank =>
    rw [if_neg hblank]
    dsimp only [trimFrom] at h ⊢
    split at h
    · cases h
    · exact readParams_again hagain h

/-! ## Actions -/

theorem readBody_again (hagain : ∀ b, .action b ∈ a.params → Again nested nested' b)
    (h : readBody config nested cs position = .ok a) :
    readBody config nested' cs position' = .ok a := by
  obtain ⟨hname, kind, params, hkind, hparams, hcount, hplaces, rfl⟩ := readBody_ok_iff.1 h
  exact readBody_ok_iff.2
    ⟨hname, kind, params, hkind, readParamList_again hagain hparams, hcount, hplaces, rfl⟩

/-- The levels are above the height of what is read. -/
theorem height_lt_of_read {levels : Nat} (h : read config levels cs position = .ok a) :
    a.height < levels := by
  induction levels generalizing cs position a with
  | zero =>
    rw [read] at h
    cases h
  | succ levels ih =>
    obtain ⟨start, hbody⟩ := exists_readBody h
    obtain ⟨hparams, -⟩ := readBody_ok hbody
    obtain ⟨kind, name, params, negative, isTest, source⟩ := a
    refine Nat.lt_succ_of_le (paramsHeight_le fun p hp => ?_)
    obtain ⟨cs', position', -, hparam⟩ := hparams p hp
    rcases readParam_ok hparam with ⟨v, rfl⟩ | ⟨o, q, rfl⟩ | ⟨text, r, -, rfl⟩ | ⟨b, hb, rfl⟩
    · exact Nat.zero_le _
    · exact Nat.zero_le _
    · exact Nat.zero_le _
    · exact ih hb

/-- Levels above the height of the action are enough to read it. -/
theorem read_again {levels levels' : Nat} (h : read config levels cs position = .ok a)
    (hlevels : a.height < levels') (htrim : trim cs' = trim cs) :
    read config levels' cs' position' = .ok a := by
  induction levels generalizing levels' cs cs' position position' a with
  | zero =>
    rw [read] at h
    cases h
  | succ levels ih =>
    obtain ⟨levels', rfl⟩ := Nat.exists_eq_add_one_of_ne_zero (Nat.ne_zero_of_lt hlevels)
    rw [read] at h ⊢
    have htrim' : trimEnd (trimStart cs') = trimEnd (trimStart cs) := htrim
    dsimp only [trimFrom] at h ⊢
    rw [htrim']
    split at h
    · cases h
    · next hempty =>
      rw [if_neg hempty]
      refine readBody_again (fun b hb _ _ _ hread => ?_) h
      have hb : b.height < a.height := height_lt_of_mem hb
      exact ih hread (by omega) rfl

end Rulebook.Action
