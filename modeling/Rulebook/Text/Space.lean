/-!
# White space

`isSpace` is Unicode's `White_Space` property.  Text is handled as a list of characters, and
trimming removes exactly the white space at its ends:

    trim cs = trimEnd (trimStart cs)
-/

namespace Rulebook.Text

/-- The characters of Unicode's `White_Space` property. -/
def isSpace (c : Char) : Bool :=
  let n := c.toNat
  (9 ≤ n && n ≤ 13) || n == 32 || n == 0x85 || n == 0xA0 || n == 0x1680 ||
    (0x2000 ≤ n && n ≤ 0x200A) || n == 0x2028 || n == 0x2029 || n == 0x202F || n == 0x205F ||
    n == 0x3000

def trimStart (cs : List Char) : List Char := cs.dropWhile isSpace

def trimEnd (cs : List Char) : List Char := (cs.reverse.dropWhile isSpace).reverse

def trim (cs : List Char) : List Char := trimEnd (trimStart cs)

/-- `trim` on strings. -/
def strip (s : String) : String := String.ofList (trim s.toList)

/-- Nothing but white space. -/
def isBlank (cs : List Char) : Bool := cs.all isSpace

/-! ## Lemmas -/

theorem exists_trimStart (cs : List Char) :
    ∃ a, cs = a ++ trimStart cs ∧ ∀ c ∈ a, isSpace c = true := by
  refine ⟨cs.takeWhile isSpace, List.takeWhile_append_dropWhile.symm, ?_⟩
  intro c hc
  exact List.all_eq_true.1 (List.all_takeWhile (l := cs)) c hc

theorem exists_trimEnd (cs : List Char) :
    ∃ b, cs = trimEnd cs ++ b ∧ ∀ c ∈ b, isSpace c = true := by
  obtain ⟨a, ha, hspace⟩ := exists_trimStart cs.reverse
  refine ⟨a.reverse, ?_, fun c hc => hspace c (List.mem_reverse.1 hc)⟩
  have h := congrArg List.reverse ha
  rwa [List.reverse_reverse, List.reverse_append] at h

/-- Trimming takes white space off both ends and nothing else. -/
theorem exists_trim (cs : List Char) :
    ∃ a b, cs = a ++ (trim cs ++ b) ∧ (∀ c ∈ a, isSpace c = true) ∧
      ∀ c ∈ b, isSpace c = true := by
  obtain ⟨a, ha, hstart⟩ := exists_trimStart cs
  obtain ⟨b, hb, hend⟩ := exists_trimEnd (trimStart cs)
  exact ⟨a, b, ha.trans (by rw [trim, ← hb]), hstart, hend⟩

theorem infix_trim (cs : List Char) : trim cs <:+: cs := by
  obtain ⟨a, b, htext, -⟩ := exists_trim cs
  exact ⟨a, b, by rw [List.append_assoc, ← htext]⟩

/-- Trimming keeps every other character. -/
theorem mem_trim_iff {cs : List Char} {c : Char} (hspace : isSpace c = false) :
    c ∈ trim cs ↔ c ∈ cs := by
  obtain ⟨a, b, htext, ha, hb⟩ := exists_trim cs
  constructor
  · intro hc
    rw [htext]
    exact List.mem_append_right a (List.mem_append_left b hc)
  · intro hc
    rw [htext, List.mem_append, List.mem_append] at hc
    rcases hc with hc | hc | hc
    · simp [ha c hc] at hspace
    · exact hc
    · simp [hb c hc] at hspace

theorem isSpace_of_trim_eq_cons {c : Char} {cs rest : List Char} (h : trim cs = c :: rest) :
    isSpace c = false := by
  obtain ⟨b, hb, -⟩ := exists_trimEnd (trimStart cs)
  have hstart : cs.dropWhile isSpace = c :: (rest ++ b) := by
    show trimStart cs = _
    rw [hb]
    show trim cs ++ b = _
    rw [h, List.cons_append]
  have hhead := List.head?_dropWhile_not isSpace cs
  rw [hstart] at hhead
  simpa using hhead

/-- What trimming leaves is more than white space. -/
theorem isBlank_eq_false {cs : List Char} (h : trim cs ≠ []) : isBlank cs = false := by
  obtain ⟨c, rest, hcs⟩ := List.exists_cons_of_ne_nil h
  have hspace : isSpace c = false := isSpace_of_trim_eq_cons hcs
  have hmem : c ∈ cs := (mem_trim_iff hspace).1 (hcs ▸ List.mem_cons_self)
  exact List.all_eq_false.2 ⟨c, hmem, by simp [hspace]⟩

theorem trimStart_cons {c : Char} {cs : List Char} (h : isSpace c = false) :
    trimStart (c :: cs) = c :: cs := by
  rw [trimStart, List.dropWhile_cons_of_neg (by simp [h])]

theorem trimEnd_concat {c : Char} {cs : List Char} (h : isSpace c = false) :
    trimEnd (cs ++ [c]) = cs ++ [c] := by
  rw [trimEnd, List.reverse_append, List.reverse_singleton, List.singleton_append,
    List.dropWhile_cons_of_neg (by simp [h])]
  simp

theorem trimStart_eq_self {cs : List Char} (h : ∀ c ∈ cs.head?, isSpace c = false) :
    trimStart cs = cs := by
  cases cs with
  | nil => rfl
  | cons c cs => exact trimStart_cons (h c rfl)

theorem trimStart_trim (cs : List Char) : trimStart (trim cs) = trim cs := by
  refine trimStart_eq_self fun c hc => ?_
  obtain ⟨rest, hrest⟩ := List.head?_eq_some_iff.1 hc
  exact isSpace_of_trim_eq_cons hrest

theorem trimEnd_append {cs ds : List Char} (h : ∀ c ∈ ds, isSpace c = true) :
    trimEnd (cs ++ ds) = trimEnd cs := by
  rw [trimEnd, trimEnd, List.reverse_append, List.dropWhile_append_of_pos]
  exact fun c hc => h c (List.mem_reverse.1 hc)

theorem trimEnd_eq_self {cs : List Char} (h : ∀ c ∈ cs, isSpace c = false) : trimEnd cs = cs := by
  have hreverse : trimStart cs.reverse = cs.reverse :=
    trimStart_eq_self fun c hc => h c (List.mem_reverse.1 (List.mem_of_mem_head? hc))
  rw [trimEnd, ← trimStart, hreverse, List.reverse_reverse]

theorem trim_eq_self {cs : List Char} (h : ∀ c ∈ cs, isSpace c = false) : trim cs = cs := by
  rw [trim, trimStart_eq_self fun c hc => h c (List.mem_of_mem_head? hc), trimEnd_eq_self h]

/-- Nothing is trimmed where there is no white space at the ends. -/
theorem trim_eq_self_of_ends {c d : Char} {cs front back : List Char} (hc : isSpace c = false)
    (hd : isSpace d = false) (hstart : cs = c :: back) (hend : cs = front ++ [d]) :
    trim cs = cs := by
  have hkeep : trimStart cs = cs := by rw [hstart, trimStart_cons hc]
  rw [trim, hkeep, hend, trimEnd_concat hd]

/-- White space around a text is trimmed off. -/
theorem trim_padded {a b : List Char} (ha : ∀ c ∈ a, isSpace c = true)
    (hb : ∀ c ∈ b, isSpace c = true) (cs : List Char) : trim (a ++ (cs ++ b)) = trim cs := by
  rw [trim, trim, trimStart, trimStart, List.dropWhile_append_of_pos ha, List.dropWhile_append]
  split
  · next hempty =>
    have hblank : b.dropWhile isSpace = [] := by
      have h : (b ++ []).dropWhile isSpace = [] := List.dropWhile_append_of_pos hb
      rwa [List.append_nil] at h
    rw [List.isEmpty_iff.1 hempty, hblank]
  · exact trimEnd_append hb

/-- Dropping characters twice, the second time more of them. -/
theorem dropWhile_dropWhile {p q : Char → Bool} (h : ∀ c, p c = true → q c = true)
    (cs : List Char) : (cs.dropWhile p).dropWhile q = cs.dropWhile q := by
  induction cs with
  | nil => rfl
  | cons c cs ih =>
    by_cases hp : p c = true
    · rw [List.dropWhile_cons_of_pos hp, List.dropWhile_cons_of_pos (h c hp), ih]
    · rw [List.dropWhile_cons_of_neg hp]

theorem trim_trim (cs : List Char) : trim (trim cs) = trim cs := by
  rw [trim, trimStart_trim]
  simp only [trim, trimEnd, List.reverse_reverse, dropWhile_dropWhile fun _ => id]

end Rulebook.Text
