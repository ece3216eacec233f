import Rulebook.Text.Case
import Rulebook.Text.Numeral
import Rulebook.Text.Space

/-!
# Letters, digits and numerals

What is written of a whole number is read as that number, padded with zeros or not:

    digitsValue 0 (padNatural width n) = n
    integer? (writeInteger n) = some n
-/

namespace Rulebook.Text

variable {c : Char} {cs ds : List Char} {width n : Nat}

/-! ## Letters and digits -/

theorem isLetter_iff : isLetter c = true ↔
    (97 ≤ c.toNat ∧ c.toNat ≤ 122) ∨ (65 ≤ c.toNat ∧ c.toNat ≤ 90) := by
  simp only [isLetter, Bool.or_eq_true, Bool.and_eq_true, decide_eq_true_eq, Char.le_def,
    UInt32.le_iff_toNat_le]
  exact Iff.rfl

theorem isDigit_iff : isDigit c = true ↔ 48 ≤ c.toNat ∧ c.toNat ≤ 57 := by
  simp only [isDigit, Bool.and_eq_true, decide_eq_true_eq, Char.le_def, UInt32.le_iff_toNat_le]
  exact Iff.rfl

theorem isLetter_toLower (c : Char) : isLetter c.toLower = true ↔ isLetter c = true := by
  by_cases hc : 'A'.val ≤ c.val ∧ c.val ≤ 'Z'.val
  · have hupper : 65 ≤ c.toNat ∧ c.toNat ≤ 90 := hc
    have hlower : c.toLower.toNat = c.toNat + 32 := by
      unfold Char.toLower
      rw [dif_pos hc]
      show (c.val + 32).toNat = c.toNat + 32
      rw [UInt32.toNat_add]
      show (c.toNat + 32) % 4294967296 = c.toNat + 32
      omega
    rw [isLetter_iff, isLetter_iff, hlower]
    omega
  · unfold Char.toLower
    rw [dif_neg hc]

theorem isLetter_of_isDigit (h : isDigit c = true) : isLetter c = false := by
  rw [isDigit_iff] at h
  rw [Bool.eq_false_iff, ne_eq, isLetter_iff]
  omega

theorem isWordChar_of_isDigit (h : isDigit c = true) : isWordChar c = true := by
  rw [isWordChar, h, Bool.or_true, Bool.true_or]

theorem isDigit_of_isSpace (h : isSpace c = true) : isDigit c = false := by
  rw [Bool.eq_false_iff, ne_eq, isDigit_iff]
  simp only [isSpace, Bool.or_eq_true, Bool.and_eq_true, decide_eq_true_eq, beq_iff_eq] at h
  omega

theorem isSpace_of_isDigit (h : isDigit c = true) : isSpace c = false := by
  rw [Bool.eq_false_iff]
  intro hspace
  simp [isDigit_of_isSpace hspace] at h

/-- A word that begins with a letter is no text that begins with another character. -/
theorem sameWord_eq_false {w : String} (hc : isLetter c = false)
    (hw : (w.toList.head?.map isLetter).getD false = true) :
    sameWord (String.ofList (c :: cs)) w = false := by
  rw [sameWord, String.toList_ofList, beq_eq_false_iff_ne]
  intro hsame
  cases hlist : w.toList with
  | nil => simp [hlist] at hw
  | cons d ds =>
    rw [hlist] at hw hsame
    have hlower : c.toLower = d.toLower := (List.cons.inj hsame).1
    have hletter : isLetter c = true := (isLetter_toLower c).1 (hlower ▸ (isLetter_toLower d).2 hw)
    simp [hc] at hletter

/-! ## Digits -/

/-- A number as written: digits, at least one. -/
structure IsNumeral (cs : List Char) : Prop where
  ne_nil : cs ≠ []
  digits : ∀ c ∈ cs, isDigit c = true

theorem IsNumeral.exists_cons (h : IsNumeral ds) : ∃ c cs, ds = c :: cs ∧ isDigit c = true := by
  obtain ⟨c, cs, rfl⟩ := List.exists_cons_of_ne_nil h.ne_nil
  exact ⟨c, cs, rfl, h.digits c List.mem_cons_self⟩

/-- What begins with a numeral begins with no other character than a digit. -/
theorem IsNumeral.append_ne_cons (h : IsNumeral ds) (hc : isDigit c = false) (rest cs : List Char) :
    ds ++ rest ≠ c :: cs := by
  obtain ⟨d, ds', rfl, hd⟩ := h.exists_cons
  intro heq
  obtain ⟨rfl, -⟩ := List.cons.inj heq
  simp [hc] at hd

theorem digitsValue_eq (acc : Nat) (cs : List Char) :
    digitsValue acc cs = Nat.ofDigitChars 10 cs acc := by
  induction cs generalizing acc with
  | nil => exact Nat.ofDigitChars_nil.symm
  | cons c cs ih => exact (ih _).trans Nat.ofDigitChars_cons.symm

theorem isDigit_of_mem_writeNatural (h : c ∈ writeNatural n) : isDigit c = true := by
  have hc := Nat.isDigit_of_mem_toDigits (by decide) (by decide) h
  simp only [Char.isDigit, Bool.and_eq_true, decide_eq_true_eq] at hc
  exact isDigit_iff.2 hc

theorem isNumeral_padNatural (width n : Nat) : IsNumeral (padNatural width n) where
  ne_nil := List.append_ne_nil_of_right_ne_nil _ Nat.toDigits_ne_nil
  digits := by
    simp only [padNatural, List.forall_mem_append, List.mem_replicate]
    refine ⟨?_, fun c => isDigit_of_mem_writeNatural⟩
    rintro c ⟨-, rfl⟩
    decide

theorem isNumeral_writeNatural (n : Nat) : IsNumeral (writeNatural n) :=
  ⟨Nat.toDigits_ne_nil, fun _ => isDigit_of_mem_writeNatural⟩

theorem digitsValue_writeNatural (n : Nat) : digitsValue 0 (writeNatural n) = n := by
  rw [digitsValue_eq, writeNatural, Nat.ofDigitChars_ten_toDigits]

theorem digitsValue_padNatural (width n : Nat) : digitsValue 0 (padNatural width n) = n := by
  rw [digitsValue_eq, padNatural, Nat.ofDigitChars_append, Nat.ofDigitChars_replicate_zero,
    Nat.mul_zero, ← digitsValue_eq, digitsValue_writeNatural]

theorem length_padNatural (hwidth : 0 < width) (hn : n < Nat.pow 10 width) :
    (padNatural width n).length = width := by
  have hle : (writeNatural n).length ≤ width :=
    (Nat.length_toDigits_le_iff (by decide) hwidth).2 hn
  rw [padNatural, List.length_append, List.length_replicate]
  exact Nat.sub_add_cancel hle

/-! ## Whole numbers -/

theorem digits?_eq_some (h : IsNumeral ds) : digits? ds = some (digitsValue 0 ds) :=
  if_pos ⟨h.ne_nil, List.all_eq_true.2 h.digits⟩

theorem digits?_eq_none (hc : isDigit c = false) (h : c ∈ cs) : digits? cs = none := by
  refine if_neg ?_
  rintro ⟨-, hall⟩
  simp [List.all_eq_true.1 hall c h] at hc

theorem natural?_eq_some (h : IsNumeral ds) : natural? ds = some (digitsValue 0 ds) := by
  unfold natural?
  split
  · next cs => exact absurd (List.append_nil _) (h.append_ne_cons (by decide) [] cs)
  · exact digits?_eq_some h

theorem integer?_eq_some (h : IsNumeral ds) : integer? ds = some (digitsValue 0 ds : Int) := by
  unfold integer?
  split
  · next cs => exact absurd (List.append_nil _) (h.append_ne_cons (by decide) [] cs)
  · rw [natural?_eq_some h]
    rfl

/-- A hyphen may only come first. -/
theorem integer?_eq_none (h : '-' ∈ cs) (c : Char) : integer? (c :: cs) = none := by
  have hdigit : isDigit '-' = false := by decide
  unfold integer?
  split
  · next heq =>
    obtain ⟨-, rfl⟩ := List.cons.inj heq
    rw [digits?_eq_none hdigit h]
    rfl
  · unfold natural?
    split
    · next heq =>
      obtain ⟨-, rfl⟩ := List.cons.inj heq
      rw [digits?_eq_none hdigit h]
      rfl
    · rw [digits?_eq_none hdigit (List.mem_cons_of_mem c h)]
      rfl

theorem integer?_writeInteger (z : Int) : integer? (writeInteger z) = some z := by
  cases z with
  | ofNat n =>
    rw [writeInteger, integer?_eq_some (isNumeral_writeNatural n), digitsValue_writeNatural]
    rfl
  | negSucc n =>
    rw [writeInteger, integer?, digits?_eq_some (isNumeral_writeNatural (n + 1)),
      digitsValue_writeNatural]
    rfl

/-- What reads as a whole number: a numeral, perhaps after a sign. -/
inductive Spells : List Char → Int → Prop
  | plain {ds : List Char} (h : IsNumeral ds) : Spells ds (digitsValue 0 ds)
  | plus {ds : List Char} (h : IsNumeral ds) : Spells ('+' :: ds) (digitsValue 0 ds)
  | minus {ds : List Char} (h : IsNumeral ds) : Spells ('-' :: ds) (-(digitsValue 0 ds))

theorem isNumeral_of_digits? (h : digits? ds = some n) : IsNumeral ds ∧ digitsValue 0 ds = n := by
  unfold digits? at h
  split at h
  · next hds => exact ⟨⟨hds.1, List.all_eq_true.1 hds.2⟩, Option.some.inj h⟩
  · cases h

theorem spells_of_integer? {z : Int} (h : integer? cs = some z) : Spells cs z := by
  unfold integer? at h
  split at h
  · obtain ⟨z, hz, rfl⟩ := Option.map_eq_some_iff.1 h
    obtain ⟨n, hn, ⟨⟩⟩ := Option.bind_eq_some_iff.1 hz
    obtain ⟨hds, rfl⟩ := isNumeral_of_digits? hn
    exact .minus hds
  · obtain ⟨z, hz, rfl⟩ := Option.map_eq_some_iff.1 h
    obtain ⟨n, hn, ⟨⟩⟩ := Option.bind_eq_some_iff.1 hz
    unfold natural? at hn
    split at hn
    · obtain ⟨hds, rfl⟩ := isNumeral_of_digits? hn
      exact .plus hds
    · obtain ⟨hds, rfl⟩ := isNumeral_of_digits? hn
      exact .plain hds

theorem fitInt64_toInt (i : Int64) : fitInt64 i.toInt = some i := by
  rw [fitInt64, if_pos ⟨i.le_toInt, i.toInt_lt⟩, Int64.ofInt_toInt]

theorem toInt_of_fitInt64 {z : Int} {i : Int64} (h : fitInt64 z = some i) : i.toInt = z := by
  unfold fitInt64 at h
  split at h
  · next hz =>
    cases h
    exact Int64.toInt_ofInt_of_le hz.1 hz.2
  · cases h

theorem spells_of_int64? {i : Int64} (h : int64? cs = some i) : Spells cs i.toInt := by
  obtain ⟨z, hz, hfit⟩ := Option.bind_eq_some_iff.1 h
  rw [toInt_of_fitInt64 hfit]
  exact spells_of_integer? hz

theorem int64?_writeInteger (n : Int64) : int64? (writeInteger n.toInt) = some n := by
  rw [int64?, integer?_writeInteger, Option.bind_some, fitInt64_toInt]

end Rulebook.Text
