import Rulebook.Proofs.Text.Marks
import Rulebook.Rule.Diagnostic

/-!
# Messages shown as HTML

The messages of a list can be read back from the HTML that shows them, whatever characters they
have:

    Html.messages? (showMessages true ms) = some ms

Reading knows nothing of how a message was written.  A document is cut at its tags, the contents of
an item at its references; each `<` has to begin a tag and each `&` one of the five references.  As
escaping leaves no `<` in a message, the tags of the document are those of the list and no others,
and as every `&` that it leaves begins a reference, each message comes back as it was.
-/

namespace Rulebook

open Text

namespace Html

/-! ## Reading -/

/-- The character that a reference stands for, by the name between `&` and `;`. -/
def character? : String → Option Char
  | "amp" => some '&'
  | "lt" => some '<'
  | "gt" => some '>'
  | "quot" => some '"'
  | "#39" => some '\''
  | _ => none

/-- A reference and the text behind it. -/
def decode? (m : Mark) : Option (List Char) := (character? m.name).map (· :: m.behind)

/-- The text that the contents of an item stand for; none if an `&` begins no reference. -/
def unescape? (content : List Char) : Option (List Char) := do
  let parts ← marked? '&' ';' content
  let decoded ← parts.marks.mapM decode?
  return parts.before ++ decoded.flatten

/-- The tags of a document, each with the text behind it; none if other text stands before them. -/
def tags? (document : String) : Option (List Mark) := do
  let parts ← marked? '<' '>' document.toList
  if parts.before = [] then some parts.marks else none

/-- The texts of the items up to the end of the list. -/
def items? : List Mark → Option (List String)
  | [⟨"/ul", []⟩] => some []
  | ⟨"li", content⟩ :: ⟨"/li", []⟩ :: rest => do
    let text ← unescape? content
    let texts ← items? rest
    return String.ofList text :: texts
  | _ => none

/-- The messages of a document: none at all, or the items of one list. -/
def messages? (document : String) : Option (List String) := do
  match ← tags? document with
  | [] => some []
  | ⟨"ul", []⟩ :: rest => items? rest
  | _ => none

/-! ## References -/

variable {cs text : List Char} {c : Char}

theorem unescape?_eq_some_iff : unescape? cs = some text ↔ ∃ before marks decoded,
    marked? '&' ';' cs = some ⟨before, marks⟩ ∧ marks.mapM decode? = some decoded ∧
      text = before ++ decoded.flatten := by
  simp only [unescape?, Option.bind_eq_bind, Option.bind_eq_some_iff, Option.pure_def,
    Option.some.injEq]
  constructor
  · rintro ⟨⟨before, marks⟩, hcs, decoded, hmarks, rfl⟩
    exact ⟨before, marks, decoded, hcs, hmarks, rfl⟩
  · rintro ⟨before, marks, decoded, hcs, hmarks, rfl⟩
    exact ⟨⟨before, marks⟩, hcs, decoded, hmarks, rfl⟩

theorem unescape?_cons (hc : c ≠ '&') (h : unescape? cs = some text) :
    unescape? (c :: cs) = some (c :: text) := by
  obtain ⟨before, marks, decoded, hcs, hmarks, rfl⟩ := unescape?_eq_some_iff.1 h
  have hplain : '&' ∉ [c] := by simpa using hc.symm
  exact unescape?_eq_some_iff.2 ⟨_, _, _, marked?_append hplain hcs, hmarks, rfl⟩

theorem unescape?_reference (name : String) (hname : character? name = some c)
    (hopening : '&' ∉ name.toList) (hclosing : ';' ∉ name.toList) (h : unescape? cs = some text) :
    unescape? ('&' :: (name.toList ++ ';' :: cs)) = some (c :: text) := by
  obtain ⟨before, marks, decoded, hcs, hmarks, rfl⟩ := unescape?_eq_some_iff.1 h
  have hmark := marked?_mark name hopening hclosing (by decide) hcs
  refine unescape?_eq_some_iff.2 ⟨_, _, (c :: before) :: decoded, hmark, ?_, rfl⟩
  rw [List.mapM_cons, decode?, hname, hmarks]
  rfl

/-- An escaped character is read as that character. -/
theorem unescape?_escapeChar (h : unescape? cs = some text) :
    unescape? (escapeChar c ++ cs) = some (c :: text) := by
  -- five characters are written as references, and the others as they are
  unfold escapeChar
  split
  · exact unescape?_reference "amp" rfl (by decide) (by decide) h
  · exact unescape?_reference "lt" rfl (by decide) (by decide) h
  · exact unescape?_reference "gt" rfl (by decide) (by decide) h
  · exact unescape?_reference "quot" rfl (by decide) (by decide) h
  · exact unescape?_reference "#39" rfl (by decide) (by decide) h
  · next hamp _ _ _ _ => exact unescape?_cons hamp h

theorem unescape?_escape (cs : List Char) : unescape? (cs.flatMap escapeChar) = some cs := by
  induction cs with
  | nil => rfl
  | cons c cs ih => exact unescape?_escapeChar ih

theorem not_mem_escapeChar : '<' ∉ escapeChar c := by
  unfold escapeChar
  split
  iterate 5 decide
  next hlt _ _ _ => simpa using fun h => hlt h.symm

/-! ## Tags -/

variable {marks : List Mark} {ms : List String}

/-- A message as an item of a list. -/
def item (m : String) : String := "<li>" ++ escapeHtml m ++ "</li>"

/-- The tags of an item. -/
def itemMarks (m : String) : List Mark := [⟨"li", m.toList.flatMap escapeChar⟩, ⟨"/li", []⟩]

theorem marked?_item (m : String) (h : marked? '<' '>' cs = some ⟨[], marks⟩) :
    marked? '<' '>' ((item m).toList ++ cs) = some ⟨[], itemMarks m ++ marks⟩ := by
  have hescaped : '<' ∉ m.toList.flatMap escapeChar := by
    simp [List.mem_flatMap, not_mem_escapeChar]
  have hclose := marked?_mark "/li" (by decide) (by decide) (by decide) h
  have hopen := marked?_mark "li" (by decide) (by decide) (by decide)
    (marked?_append hescaped hclose)
  rw [List.append_nil] at hopen
  have htext : (item m).toList ++ cs = '<' :: ("li".toList ++ '>' ::
      (m.toList.flatMap escapeChar ++ '<' :: ("/li".toList ++ '>' :: cs))) := by
    simp [item, escapeHtml]
  rw [htext, hopen]
  rfl

theorem marked?_items (ms : List String) :
    marked? '<' '>' (ms.flatMap (fun m => (item m).toList) ++ "</ul>".toList) =
      some ⟨[], ms.flatMap itemMarks ++ [⟨"/ul", []⟩]⟩ := by
  induction ms with
  | nil => rfl
  | cons m ms ih =>
    rw [List.flatMap_cons, List.flatMap_cons, List.append_assoc, List.append_assoc]
    exact marked?_item m ih

theorem tags?_showMessages (h : ms ≠ []) : tags? (showMessages true ms) =
    some (⟨"ul", []⟩ :: (ms.flatMap itemMarks ++ [⟨"/ul", []⟩])) := by
  have hsome : ms.isEmpty = false := List.isEmpty_eq_false_iff.2 h
  have htext : (showMessages true ms).toList = '<' :: ("ul".toList ++ '>' ::
      (ms.flatMap (fun m => (item m).toList) ++ "</ul>".toList)) := by
    simp [showMessages, hsome, toList_join_empty, List.flatMap_map, item]
  have hmarked := marked?_mark "ul" (by decide) (by decide) (by decide) (marked?_items ms)
  rw [tags?, htext, hmarked]
  rfl

theorem items?_itemMarks (ms : List String) :
    items? (ms.flatMap itemMarks ++ [⟨"/ul", []⟩]) = some ms := by
  induction ms with
  | nil => rfl
  | cons m ms ih =>
    show items? (⟨"li", m.toList.flatMap escapeChar⟩ :: ⟨"/li", []⟩ ::
      (ms.flatMap itemMarks ++ [⟨"/ul", []⟩])) = _
    rw [items?, unescape?_escape, ih]
    simp

theorem messages?_showMessages (ms : List String) : messages? (showMessages true ms) = some ms := by
  by_cases h : ms = []
  · subst h
    rfl
  · rw [messages?, tags?_showMessages h]
    exact items?_itemMarks ms

/-- Markup in a message is a part of the message, and not of the list. -/
example : messages? "<ul><li>&lt;/li&gt;&amp;amp;</li></ul>" = some ["</li>&amp;"] ∧
    messages? "<ul><li></li>&amp;</li></ul>" = none := by
  decide +kernel

end Html

/-- **Messages cannot be forged in HTML.**  The list that is shown holds the messages and nothing
else: its tags are those of the list and of one item for each message, the contents of the items
stand for the messages, and no other messages are shown in the same way. -/
theorem showMessages_html (ms : List String) :
    Html.messages? (showMessages true ms) = some ms ∧
      (Html.tags? (showMessages true ms)).map (List.map Mark.name) =
        some (if ms = [] then [] else "ul" :: ((ms.flatMap fun _ => ["li", "/li"]) ++ ["/ul"])) ∧
      ∀ ns, showMessages true ns = showMessages true ms ↔ ns = ms := by
  refine ⟨Html.messages?_showMessages ms, ?_, fun ns => ⟨fun h => ?_, congrArg _⟩⟩
  · by_cases h : ms = []
    · subst h
      rfl
    · rw [Html.tags?_showMessages h, if_neg h, Option.map_some]
      simp [List.map_flatMap, Html.itemMarks]
  · have hread := congrArg Html.messages? h
    rw [Html.messages?_showMessages, Html.messages?_showMessages] at hread
    exact Option.some.inj hread

end Rulebook
