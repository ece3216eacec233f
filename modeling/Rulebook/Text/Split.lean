/-!
# Cutting text at a character

    pieces sep cs         the pieces between the separators; at least one
    cutOnce sep cs        the two sides of the first separator, if there is one

Joining the pieces with the separator gives the text back (`intercalate_pieces`).
-/

namespace Rulebook.Text

/-- The pieces between the occurrences of `sep`, empty ones included. -/
def pieces (sep : Char) : List Char → List (List Char)
  | [] => [[]]
  | c :: cs =>
    if c = sep then [] :: pieces sep cs
    else match pieces sep cs with
      | [] => [[c]]
      | p :: ps => (c :: p) :: ps

/-- The text before and after the first `sep`. -/
def cutOnce (sep : Char) : List Char → Option (List Char × List Char)
  | [] => none
  | c :: cs =>
    if c = sep then some ([], cs)
    else (cutOnce sep cs).map fun (a, b) => (c :: a, b)

/-- `s` without the prefix `p`. -/
def dropStart? (p : List Char) (cs : List Char) : Option (List Char) :=
  if p.isPrefixOf cs then some (cs.drop p.length) else none

/-- The text without its last character, when that is `c`. -/
def dropLast? (c : Char) (cs : List Char) : Option (List Char) :=
  if cs.getLast? = some c then some cs.dropLast else none

/-- The texts with `sep` between them. -/
def join (sep : String) (parts : List String) : String := sep.intercalate parts

/-! ## Lemmas -/

theorem pieces_ne_nil (sep : Char) (cs : List Char) : pieces sep cs ≠ [] := by
  induction cs with
  | nil => simp [pieces]
  | cons c cs ih =>
    unfold pieces
    split
    · simp
    · split <;> simp

theorem intercalate_pieces (sep : Char) (cs : List Char) :
    List.intercalate [sep] (pieces sep cs) = cs := by
  induction cs with
  | nil => simp [pieces, List.intercalate]
  | cons c cs ih =>
    have hne := pieces_ne_nil sep cs
    unfold pieces
    split
    · next h =>
      subst h
      obtain ⟨p, ps, hp⟩ := List.exists_cons_of_ne_nil hne
      rw [hp] at ih ⊢
      simp only [List.intercalate, List.intersperse] at ih ⊢
      simp [ih]
    · obtain ⟨p, ps, hp⟩ := List.exists_cons_of_ne_nil hne
      rw [hp] at ih ⊢
      cases ps with
      | nil => simpa [List.intercalate] using ih
      | cons q qs => simp only [List.intercalate, List.intersperse] at ih ⊢; simp [← ih]

/-- Characters that do not separate belong to the first piece. -/
theorem pieces_append {sep : Char} {a cs p : List Char} {ps : List (List Char)} (h : sep ∉ a)
    (hp : pieces sep cs = p :: ps) : pieces sep (a ++ cs) = (a ++ p) :: ps := by
  induction a with
  | nil => exact hp
  | cons c a ih =>
    rw [List.mem_cons, not_or] at h
    rw [List.cons_append, pieces, if_neg (Ne.symm h.1), ih h.2]
    rfl

theorem pieces_intercalate {sep : Char} {ps : List (List Char)} (hne : ps ≠ [])
    (h : ∀ p ∈ ps, sep ∉ p) : pieces sep (List.intercalate [sep] ps) = ps := by
  induction ps with
  | nil => exact absurd rfl hne
  | cons p ps ih =>
    rw [List.forall_mem_cons] at h
    cases ps with
    | nil =>
      have hone := pieces_append h.1 (show pieces sep [] = [] :: [] from rfl)
      rw [List.append_nil] at hone
      rw [List.intercalate_singleton, hone]
    | cons q qs =>
      have hcut : pieces sep (sep :: List.intercalate [sep] (q :: qs)) = [] :: q :: qs := by
        rw [pieces, if_pos rfl, ih (List.cons_ne_nil q qs) h.2]
      rw [List.intercalate_cons_cons, List.append_assoc, List.singleton_append,
        pieces_append h.1 hcut, List.append_nil]

/-- Joined texts are the first, and each other one behind a separator. -/
theorem intercalate_cons (sep : Char) (first : List Char) (rest : List (List Char)) :
    List.intercalate [sep] (first :: rest) = first ++ rest.flatMap (sep :: ·) := by
  induction rest generalizing first with
  | nil => rw [List.intercalate_singleton, List.flatMap_nil, List.append_nil]
  | cons second rest ih =>
    rw [List.intercalate_cons_cons, ih, List.append_assoc]
    rfl

theorem toList_join_empty (parts : List String) :
    (join "" parts).toList = parts.flatMap String.toList := by
  induction parts with
  | nil => rfl
  | cons p parts ih =>
    cases parts with
    | nil => simp [join]
    | cons q parts =>
      rw [join, String.intercalate_cons_cons, ← join, String.toList_append, ih]
      simp

theorem mem_pieces (sep : Char) {c : Char} {cs : List Char} (h : c ∈ cs) :
    c = sep ∨ ∃ p ∈ pieces sep cs, c ∈ p := by
  induction cs with
  | nil => simp at h
  | cons d cs ih =>
    obtain ⟨p, ps, hp⟩ := List.exists_cons_of_ne_nil (pieces_ne_nil sep cs)
    unfold pieces
    split
    · next hd =>
      rcases List.mem_cons.1 h with rfl | h
      · exact .inl hd
      · refine (ih h).imp_right ?_
        rintro ⟨q, hq, hc⟩
        exact ⟨q, by simp [hq], hc⟩
    · rw [hp]
      rw [hp] at ih
      rcases List.mem_cons.1 h with rfl | h
      · exact .inr ⟨c :: p, by simp⟩
      · refine (ih h).imp_right ?_
        rintro ⟨q, hq, hc⟩
        rcases List.mem_cons.1 hq with rfl | hq
        · exact ⟨d :: q, by simp, by simp [hc]⟩
        · exact ⟨q, by simp [hq], hc⟩

theorem dropStart?_singleton {c : Char} {cs rest : List Char} (h : dropStart? [c] cs = some rest) :
    cs = c :: rest := by
  cases cs with
  | nil => simp [dropStart?] at h
  | cons d cs =>
    simp only [dropStart?, List.isPrefixOf, Bool.and_true, beq_iff_eq] at h
    split at h
    · next hc =>
      cases h
      rw [hc]
      rfl
    · cases h

theorem dropLast?_eq_some {c : Char} {cs rest : List Char} (h : dropLast? c cs = some rest) :
    cs = rest ++ [c] := by
  unfold dropLast? at h
  split at h
  · next hlast =>
    cases h
    obtain ⟨ds, rfl⟩ := List.getLast?_eq_some_iff.1 hlast
    rw [List.dropLast_concat]
  · cases h

theorem cutOnce_eq_some {sep : Char} {cs a b : List Char} (h : cutOnce sep cs = some (a, b)) :
    cs = a ++ sep :: b ∧ sep ∉ a := by
  induction cs generalizing a with
  | nil => simp [cutOnce] at h
  | cons c cs ih =>
    unfold cutOnce at h
    split at h
    · next hc => cases h; simp [hc]
    · next hc =>
      obtain ⟨⟨x, y⟩, hxy, he⟩ := Option.map_eq_some_iff.1 h
      cases he
      obtain ⟨h1, h2⟩ := ih hxy
      exact ⟨by rw [h1]; rfl, by simp [h2, Ne.symm hc]⟩

theorem cutOnce_append {sep : Char} {a b : List Char} (h : sep ∉ a) :
    cutOnce sep (a ++ sep :: b) = some (a, b) := by
  induction a with
  | nil => simp [cutOnce]
  | cons c a ih =>
    have hc : c ≠ sep := fun e => h (by simp [e])
    simp [cutOnce, hc, ih (fun hm => h (by simp [hm]))]

theorem cutOnce_eq_none {sep : Char} {cs : List Char} (h : sep ∉ cs) : cutOnce sep cs = none := by
  rw [Option.eq_none_iff_forall_ne_some]
  rintro ⟨a, b⟩ hcut
  obtain ⟨rfl, -⟩ := cutOnce_eq_some hcut
  exact h (List.mem_append_right a List.mem_cons_self)

theorem cutOnce_eq_some_iff {sep : Char} {cs a b : List Char} :
    cutOnce sep cs = some (a, b) ↔ cs = a ++ sep :: b ∧ sep ∉ a := by
  constructor
  · exact cutOnce_eq_some
  · rintro ⟨rfl, h⟩
    exact cutOnce_append h

end Rulebook.Text
