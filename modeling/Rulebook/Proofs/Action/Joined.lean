import Rulebook.Action.Parse
import Rulebook.Proofs.Action.Cuts
import Rulebook.Proofs.Action.RulePieces

/-!
# Parameters joined by commas

Texts that are taken whole can be joined by commas, and the join is cut at these commas and nowhere
else (`pieces_intercalate`).  So parameters are read from the joined texts when each is read from
its own:

    ReadsAs config nested (text x) (param x)    for every x in xs
      →  readParams config nested kind (the texts of xs joined) position = .ok (xs.map param)
-/

namespace Rulebook

open Text

namespace TopLevel

variable {xs : List (List Char)} {s : Scan} {opens : Bool}

/-! ## Cutting at the commas -/

/-- A comma ends a piece that has been taken whole, and a token can begin after it. -/
theorem piecesFrom_comma (h : Ready s [] opens) (rest : List Char) : ∃ t, Ready t [] true ∧
    t.piece = [] ∧ piecesFrom [','] s (',' :: rest) =
      (piecesFrom [','] t rest).map (⟨s.start, s.piece.reverse⟩ :: ·) := by
  obtain ⟨t, ht, -, hpieces⟩ :=
    piecesFrom_separator (isSeparator (.inr rfl)) h.in_mode ⟨rfl, rfl⟩ rest
  have hin := ht.mode
  exact ⟨t, ⟨hin.skip, Option.map_eq_none_iff.1 hin.quote, hin.stack, fun _ => hin.opens⟩, ht.piece,
    hpieces⟩

theorem piecesFrom_intercalate (hne : xs ≠ []) (h : ∀ cs ∈ xs, Whole cs) (hready : Ready s [] true)
    (hpiece : s.piece = []) :
    ∃ ps, piecesFrom [','] s (List.intercalate [','] xs) = .ok ps ∧ ps.map Piece.text = xs := by
  induction xs generalizing s with
  | nil => exact absurd rfl hne
  | cons cs xs ih =>
    obtain ⟨hcs, hxs⟩ := List.forall_mem_cons.1 h
    cases xs with
    | nil =>
      obtain ⟨t, hrun, hready', htaken, -⟩ := hcs [','] [] [] s (.inr rfl) hready
      rw [hpiece, List.append_nil] at htaken
      rw [List.append_nil] at hrun
      rw [List.intercalate_singleton, hrun, piecesFrom_end hready', htaken, List.reverse_reverse]
      exact ⟨_, rfl, rfl⟩
    | cons ds xs =>
      let more := List.intercalate [','] (ds :: xs)
      obtain ⟨t, hrun, hready', htaken, -⟩ := hcs [','] [] (',' :: more) s (.inr rfl) hready
      obtain ⟨u, hready'', hempty, hcomma⟩ := piecesFrom_comma hready' more
      obtain ⟨ps, hps, htexts⟩ := ih (List.cons_ne_nil _ _) hxs hready'' hempty
      rw [hpiece, List.append_nil] at htaken
      rw [List.intercalate_cons_cons, List.append_assoc, List.singleton_append, hrun, hcomma, hps,
        htaken, List.reverse_reverse]
      exact ⟨_, rfl, by rw [List.map_cons, htexts]⟩

/-- Texts joined by commas are cut apart again. -/
theorem pieces_intercalate (hne : xs ≠ []) (h : ∀ cs ∈ xs, Whole cs) (position : Nat) :
    ∃ ps, pieces [','] position (List.intercalate [','] xs) = .ok ps ∧ ps.map Piece.text = xs :=
  piecesFrom_intercalate hne h (ready_start position) rfl

end TopLevel

namespace Action

open TopLevel

variable {α : Type} {config : Config} {nested : Nested} {kind : ActionKind} {cs : List Char}
  {p : Param} {xs : List α} {text : α → List Char} {param : α → Param}

/-! ## Reading the parameters -/

/-- The parameter is read from the text, wherever that stands among others. -/
structure ReadsAs (config : Config) (nested : Nested) (cs : List Char) (p : Param) : Prop where
  whole : Whole cs
  ne_nil : trim cs ≠ []
  read : ∀ position, readParam config nested (trim cs) position = .ok p

theorem ReadsAs.of_trim (hwhole : Whole cs) (htrim : trim cs = cs) (hne : cs ≠ [])
    (hread : ∀ position, readParam config nested cs position = .ok p) :
    ReadsAs config nested cs p := by
  refine ⟨hwhole, ?_, ?_⟩
  · rwa [htrim]
  · rwa [htrim]

theorem readPieces_of_texts (h : ∀ x ∈ xs, ReadsAs config nested (text x) (param x))
    {pieces : List Piece} (htexts : pieces.map Piece.text = xs.map text) :
    readPieces config nested kind pieces = .ok (xs.map param) := by
  induction xs generalizing pieces with
  | nil =>
    rw [List.map_eq_nil_iff.1 htexts]
    rfl
  | cons x xs ih =>
    obtain ⟨piece, pieces, rfl, htext, htexts⟩ := List.map_eq_cons_iff.1 htexts
    obtain ⟨hx, hxs⟩ := List.forall_mem_cons.1 h
    have hempty : ¬ (trimEnd (trimStart (text x))).isEmpty = true :=
      fun hempty => hx.ne_nil (List.isEmpty_iff.1 hempty)
    rw [readPieces, htext]
    dsimp only [trimFrom]
    rw [if_neg hempty]
    exact bind_ok_iff.2 ⟨_, hx.read _, bind_ok_iff.2 ⟨_, ih hxs htexts, rfl⟩⟩

theorem ReadsAs.not_isBlank (h : ReadsAs config nested cs p) (rest : List Char) :
    ¬ isBlank (cs ++ rest) = true := by
  have hcs : cs.all isSpace = false := isBlank_eq_false h.ne_nil
  rw [isBlank, List.all_append, hcs, Bool.false_and]
  decide

/-- Parameters are read from their texts with commas between them. -/
theorem readParams_joined (h : ∀ x ∈ xs, ReadsAs config nested (text x) (param x))
    (position : Nat) :
    readParams config nested kind (List.intercalate [','] (xs.map text)) position =
      .ok (xs.map param) := by
  cases xs with
  | nil => rfl
  | cons x xs =>
    have hblank : ¬ isBlank (List.intercalate [','] ((x :: xs).map text)) = true := by
      have hx := h x List.mem_cons_self
      cases xs with
      | nil =>
        rw [List.map_singleton, List.intercalate_singleton, ← List.append_nil (text x)]
        exact hx.not_isBlank []
      | cons y xs =>
        rw [List.map_cons, List.map_cons, List.intercalate_cons_cons, List.append_assoc]
        exact hx.not_isBlank _
    have hwhole : ∀ cs ∈ (x :: xs).map text, Whole cs := by
      rw [List.forall_mem_map]
      exact fun y hy => (h y hy).whole
    obtain ⟨pieces, hpieces, htexts⟩ :=
      pieces_intercalate (List.cons_ne_nil (text x) (xs.map text)) hwhole position
    rw [readParams, if_neg hblank]
    exact bind_ok_iff.2 ⟨pieces, hpieces, readPieces_of_texts h htexts⟩

/-- One parameter is read from its own text. -/
theorem readParams_one (h : ReadsAs config nested cs p) (position : Nat) :
    readParams config nested kind cs position = .ok [p] := by
  have hone : ∀ x ∈ [cs], ReadsAs config nested (id x) p := by simpa using h
  have hread : readParams config nested kind (List.intercalate [','] ([cs].map id)) position =
      .ok ([cs].map fun _ => p) := readParams_joined hone position
  rwa [List.map_singleton, List.map_singleton, List.intercalate_singleton] at hread

end Action

end Rulebook
