/-!
# Byte positions

Positions in a text count the bytes of its UTF-8 form.  A slice is cut out by two such positions:

    slice cs a b = takeBytes (b - a) (dropBytes a cs)
-/

namespace Rulebook.Text

/-- Length in UTF-8 bytes. -/
def byteLength : List Char → Nat
  | [] => 0
  | c :: cs => c.utf8Size + byteLength cs

/-- What is left after the first `n` bytes. -/
def dropBytes : Nat → List Char → List Char
  | 0, cs => cs
  | _, [] => []
  | n, c :: cs => dropBytes (n - c.utf8Size) cs

/-- The characters that begin within the first `n` bytes. -/
def takeBytes : Nat → List Char → List Char
  | 0, _ => []
  | _, [] => []
  | n, c :: cs => c :: takeBytes (n - c.utf8Size) cs

/-- The characters from byte `start` up to byte `stop`. -/
def slice (cs : List Char) (start stop : Nat) : List Char :=
  takeBytes (stop - start) (dropBytes start cs)

/-! ## Lemmas -/

theorem byteLength_append (a b : List Char) :
    byteLength (a ++ b) = byteLength a + byteLength b := by
  induction a with
  | nil => simp [byteLength]
  | cons c a ih => simp [byteLength, ih, Nat.add_assoc]

theorem dropBytes_byteLength_append (a b : List Char) : dropBytes (byteLength a) (a ++ b) = b := by
  induction a with
  | nil => simp [byteLength, dropBytes]
  | cons c a ih =>
    have hc := c.utf8Size_pos
    obtain ⟨n, hn⟩ : ∃ n, byteLength (c :: a) = n + 1 := ⟨c.utf8Size + byteLength a - 1, by
      simp [byteLength]; omega⟩
    rw [hn, List.cons_append, dropBytes]
    · rw [← hn]
      simp only [byteLength]
      rw [Nat.add_sub_cancel_left]
      exact ih
    · omega

theorem takeBytes_byteLength_append (a b : List Char) : takeBytes (byteLength a) (a ++ b) = a := by
  induction a with
  | nil => simp [byteLength, takeBytes]
  | cons c a ih =>
    have hc := c.utf8Size_pos
    obtain ⟨n, hn⟩ : ∃ n, byteLength (c :: a) = n + 1 := ⟨c.utf8Size + byteLength a - 1, by
      simp [byteLength]; omega⟩
    rw [hn, List.cons_append, takeBytes]
    · rw [← hn]
      simp only [byteLength]
      rw [Nat.add_sub_cancel_left, ih]
    · omega

/-- A slice is the middle of a text in three parts. -/
theorem slice_append (a b c : List Char) :
    slice (a ++ b ++ c) (byteLength a) (byteLength a + byteLength b) = b := by
  rw [slice, Nat.add_sub_cancel_left, List.append_assoc, dropBytes_byteLength_append,
    takeBytes_byteLength_append]

end Rulebook.Text
