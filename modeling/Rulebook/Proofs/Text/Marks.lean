import Rulebook.Text.Split

/-!
# Marks in a text

A mark is a name between an opening and a closing character, as `<li>` and `&amp;` are.  A text is
cut at its marks into the text before the first and, for each of them, the name and the text behind
it:

    marked? '<' '>' "a<b>c</b>" = some ⟨"a", [⟨"b", "c"⟩, ⟨"/b", ""⟩]⟩

What is cut comes out of the parts it was put together from: text without an opening character goes
to what stands before the marks (`marked?_append`), and a mark stands by itself (`marked?_mark`).
-/

namespace Rulebook.Text

/-- A name between the two characters, and the text behind it up to the next mark. -/
structure Mark where
  name : String
  behind : List Char
deriving DecidableEq, Repr

/-- A text cut at its marks. -/
structure Marked where
  before : List Char
  marks : List Mark
deriving DecidableEq, Repr

/-- The mark that follows an opening character. -/
def mark? (closing : Char) (cs : List Char) : Option Mark :=
  (cutOnce closing cs).map fun (name, behind) => ⟨String.ofList name, behind⟩

/-- The parts of a text; none if a mark is not closed. -/
def marked? (opening closing : Char) (cs : List Char) : Option Marked :=
  match pieces opening cs with
  | [] => none
  | before :: rest => (rest.mapM (mark? closing)).map fun marks => ⟨before, marks⟩

variable {opening closing : Char} {cs a before : List Char} {marks : List Mark}

theorem marked?_eq_some_iff : marked? opening closing cs = some ⟨before, marks⟩ ↔
    ∃ ps, pieces opening cs = before :: ps ∧ ps.mapM (mark? closing) = some marks := by
  unfold marked?
  split
  · next h => simp [h]
  · next p ps h =>
    rw [h, Option.map_eq_some_iff]
    constructor
    · rintro ⟨ms, hms, ⟨⟩⟩
      exact ⟨ps, rfl, hms⟩
    · rintro ⟨_, ⟨⟩, hms⟩
      exact ⟨marks, hms, rfl⟩

/-- A text without an opening character is no mark. -/
theorem marked?_append (h : opening ∉ a) (hcs : marked? opening closing cs = some ⟨before, marks⟩) :
    marked? opening closing (a ++ cs) = some ⟨a ++ before, marks⟩ := by
  obtain ⟨ps, hpieces, hmarks⟩ := marked?_eq_some_iff.1 hcs
  exact marked?_eq_some_iff.2 ⟨ps, pieces_append h hpieces, hmarks⟩

theorem marked?_mark (name : String) (hopening : opening ∉ name.toList)
    (hclosing : closing ∉ name.toList) (hne : opening ≠ closing)
    (hcs : marked? opening closing cs = some ⟨before, marks⟩) :
    marked? opening closing (opening :: (name.toList ++ closing :: cs)) =
      some ⟨[], ⟨name, before⟩ :: marks⟩ := by
  obtain ⟨ps, hpieces, hmarks⟩ := marked?_eq_some_iff.1 hcs
  have hclose : opening ∉ [closing] := by simpa using hne
  have hpiece : pieces opening (name.toList ++ closing :: cs) =
      (name.toList ++ closing :: before) :: ps :=
    pieces_append hopening (pieces_append hclose hpieces)
  have hmark : mark? closing (name.toList ++ closing :: before) = some ⟨name, before⟩ := by
    rw [mark?, cutOnce_append hclosing, Option.map_some]
    exact congrArg (fun n => some (Mark.mk n before)) String.ofList_toList
  refine marked?_eq_some_iff.2 ⟨_, by rw [pieces, if_pos rfl, hpiece], ?_⟩
  rw [List.mapM_cons, hmark, hmarks]
  rfl

end Rulebook.Text
