import Rulebook.ParseError
import Rulebook.Text.Bytes

/-!
# Slices of a text

`IsSlice text a b cs` says that `cs` is what the text holds from byte `a` up to byte `b`, and that
both positions stand between characters:

    text = before ++ cs ++ after,   a = byteLength before,   b = a + byteLength cs

A parse error is about a slice of the source, which starts or stops where the error was found.
-/

namespace Rulebook

namespace Text

/-- `cs` is the text from byte `a` up to byte `b`. -/
def IsSlice (text : List Char) (a b : Nat) (cs : List Char) : Prop :=
  ∃ before after, text = before ++ cs ++ after ∧ a = byteLength before ∧ b = a + byteLength cs

variable {text cs ds before after : List Char} {a b c d : Nat}

theorem byteLength_eq_zero_iff : byteLength cs = 0 ↔ cs = [] := by
  cases cs with
  | nil => simp [byteLength]
  | cons c cs =>
    have hc := c.utf8Size_pos
    simp only [byteLength, reduceCtorEq, iff_false]
    omega

/-- Of two beginnings of a text the one that is no shorter goes on from the other. -/
theorem isPrefix_of_byteLength_le (hcs : cs <+: text) (hds : ds <+: text)
    (hle : byteLength cs ≤ byteLength ds) : cs <+: ds := by
  rcases List.prefix_or_prefix_of_prefix hcs hds with h | ⟨es, rfl⟩
  · exact h
  · rw [byteLength_append] at hle
    obtain rfl := byteLength_eq_zero_iff.1 (show byteLength es = 0 by omega)
    simp

namespace IsSlice

theorem whole (text : List Char) : IsSlice text 0 (byteLength text) text :=
  ⟨[], [], by simp, rfl, by simp⟩

theorem stop_eq (h : IsSlice text a b cs) : b = a + byteLength cs := by
  obtain ⟨-, -, -, -, hb⟩ := h
  exact hb

theorem stop_le (h : IsSlice text a b cs) : b ≤ byteLength text := by
  obtain ⟨before, after, rfl, rfl, rfl⟩ := h
  simp only [byteLength_append]
  omega

/-- What stands in a slice stands in the text. -/
theorem trans (h : IsSlice text a b cs) (h' : IsSlice cs c d ds) :
    IsSlice text (a + c) (a + d) ds := by
  obtain ⟨before, after, rfl, rfl, -⟩ := h
  obtain ⟨before', after', rfl, rfl, rfl⟩ := h'
  exact ⟨before ++ before', after' ++ after, by simp, by rw [byteLength_append], by omega⟩

/-- The middle of a slice in three parts. -/
theorem middle (h : IsSlice text a b (before ++ cs ++ after)) :
    IsSlice text (a + byteLength before) (a + byteLength before + byteLength cs) cs := by
  have hcs : IsSlice (before ++ cs ++ after) (byteLength before)
      (byteLength before + byteLength cs) cs := ⟨before, after, rfl, rfl, rfl⟩
  rw [Nat.add_assoc]
  exact h.trans hcs

theorem front (h : IsSlice text a b (cs ++ after)) : IsSlice text a (a + byteLength cs) cs := by
  rw [← List.nil_append cs] at h
  exact h.middle

theorem back (h : IsSlice text a b (before ++ cs)) : IsSlice text (a + byteLength before) b cs := by
  have hb : b = a + byteLength before + byteLength cs := by
    rw [h.stop_eq, byteLength_append, Nat.add_assoc]
  rw [← List.append_nil (before ++ cs)] at h
  rw [hb]
  exact h.middle

/-- The end of a slice, where it is told by how much shorter it is. -/
theorem suffix (h : IsSlice text a b cs) (hds : ds <:+ cs) :
    IsSlice text (a + (byteLength cs - byteLength ds)) b ds := by
  obtain ⟨before, rfl⟩ := hds
  rw [byteLength_append, Nat.add_sub_cancel]
  exact h.back

/-- From a slice on to the end of the text. -/
theorem dropBytes (h : IsSlice text a b cs) :
    IsSlice text a (byteLength text) (dropBytes a text) := by
  obtain ⟨before, after, rfl, rfl, -⟩ := h
  rw [List.append_assoc, dropBytes_byteLength_append]
  exact ⟨before, [], by simp, rfl, byteLength_append _ _⟩

theorem slice_eq (h : IsSlice text a b cs) : slice text a b = cs := by
  obtain ⟨before, after, rfl, rfl, rfl⟩ := h
  exact slice_append before cs after

/-- A slice from the front is what the text begins with. -/
theorem isPrefix (h : IsSlice text 0 b cs) : cs <+: text := by
  obtain ⟨before, after, rfl, hbefore, -⟩ := h
  obtain rfl := byteLength_eq_zero_iff.1 hbefore.symm
  exact ⟨after, rfl⟩

/-- A slice up to the end is what the text ends with. -/
theorem isSuffix (h : IsSlice text a (byteLength text) cs) : cs <:+ text := by
  obtain ⟨before, after, rfl, rfl, hstop⟩ := h
  rw [byteLength_append, byteLength_append] at hstop
  obtain rfl := byteLength_eq_zero_iff.1 (Nat.add_eq_left.1 hstop)
  exact ⟨before, (List.append_nil _).symm⟩

/-- From the start of one slice to the end of another that does not end before it. -/
theorem exists_between (h : IsSlice text a b cs) (h' : IsSlice text c d ds) (had : a ≤ d) :
    ∃ es, IsSlice text a d es := by
  obtain ⟨before, after, htext, rfl, -⟩ := h
  obtain ⟨before', after', htext', rfl, rfl⟩ := h'
  have hprefix : before ++ cs <+: text := ⟨after, htext.symm⟩
  have hprefix' : before' ++ ds <+: text := ⟨after', htext'.symm⟩
  obtain ⟨es, hes⟩ : before <+: before' ++ ds :=
    isPrefix_of_byteLength_le ((List.prefix_append before cs).trans hprefix) hprefix'
      (by rwa [byteLength_append])
  refine ⟨es, before, after', by rw [hes, htext'], rfl, ?_⟩
  rw [← byteLength_append, ← byteLength_append, hes]

end IsSlice

end Text

namespace ParseError

/-- The fragment is a slice of the text that starts at the position. -/
def StartsIn (e : ParseError) (text : List Char) : Prop :=
  ∃ stop, Text.IsSlice text e.position stop e.fragment.toList

/-- The fragment is a slice of the text that stops at the position. -/
def StopsIn (e : ParseError) (text : List Char) : Prop :=
  ∃ start, Text.IsSlice text start e.position e.fragment.toList

/-- A text ended where more should follow. -/
def AtEnd (e : ParseError) : Prop := ∃ expected, e.cause = .unexpected expected "end of input"

/-- The fragment is the text up to the position when the text ended there, and the text from the
position on otherwise. -/
def PointsInto (e : ParseError) (text : List Char) : Prop :=
  (e.AtEnd → e.StopsIn text) ∧ (¬ e.AtEnd → e.StartsIn text)

/-- The same error in a text that begins at byte `start` of another. -/
def moved (e : ParseError) (start : Nat) : ParseError :=
  { e with position := e.position + start }

variable {e : ParseError} {text cs : List Char} {start stop : Nat}

theorem StartsIn.moved (h : e.StartsIn cs) (hcs : Text.IsSlice text start stop cs) :
    (e.moved start).StartsIn text := by
  obtain ⟨stop', h⟩ := h
  have hslice := hcs.trans h
  rw [Nat.add_comm] at hslice
  exact ⟨_, hslice⟩

theorem StopsIn.moved (h : e.StopsIn cs) (hcs : Text.IsSlice text start stop cs) :
    (e.moved start).StopsIn text := by
  obtain ⟨start', h⟩ := h
  have hslice := hcs.trans h
  rw [Nat.add_comm start e.position] at hslice
  exact ⟨_, hslice⟩

theorem StartsIn.pointsInto (h : e.StartsIn text) (hend : ¬ e.AtEnd) : e.PointsInto text :=
  ⟨fun hend' => absurd hend' hend, fun _ => h⟩

theorem StopsIn.pointsInto (h : e.StopsIn text) (hend : e.AtEnd) : e.PointsInto text :=
  ⟨fun _ => h, fun hend' => absurd hend hend'⟩

theorem PointsInto.moved (h : e.PointsInto cs) (hcs : Text.IsSlice text start stop cs) :
    (e.moved start).PointsInto text :=
  ⟨fun hend => (h.1 hend).moved hcs, fun hend => (h.2 hend).moved hcs⟩

end ParseError

end Rulebook
