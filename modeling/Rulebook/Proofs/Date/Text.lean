import Rulebook.Date.Text
import Rulebook.Proofs.Date.Basic
import Rulebook.Proofs.Text.Numeral

/-!
# Dates read and written

What is written of a date is read as that date, in every year of the calendar (`read?_write`).  The
other way round a text that reads as a date may be written otherwise: `respell` is what becomes of
it, and it keeps exactly the texts that read as no date or are what is written of one.
-/

namespace Rulebook.Date

open Text

variable {cs ds rest : List Char} {year : Int} {month day most : Nat}

/-! ## Reading what is written -/

/-- What cannot belong to the digits before it. -/
def EndsDigits (rest : List Char) : Prop := ∀ c ∈ rest.head?, isDigit c = false

theorem takeWhile_numeral (hds : IsNumeral ds) (hrest : EndsDigits rest) :
    (ds ++ rest).takeWhile isDigit = ds := by
  rw [List.takeWhile_append_of_pos hds.digits]
  cases rest with
  | nil => rw [List.takeWhile_nil, List.append_nil]
  | cons c rest => rw [List.takeWhile_cons_of_neg (by simp [hrest c rfl]), List.append_nil]

theorem leadingNumber?_append (hds : IsNumeral ds) (hlen : ds.length ≤ most)
    (hrest : EndsDigits rest) :
    leadingNumber? most (ds ++ rest) = some (digitsValue 0 ds, rest) := by
  have htake : (ds ++ rest).take most = ds ++ rest.take (most - ds.length) := by
    rw [List.take_append, List.take_of_length_le hlen]
  have hends : EndsDigits (rest.take (most - ds.length)) := by
    intro c hc
    rw [List.head?_take] at hc
    split at hc
    · cases hc
    · exact hrest c hc
  rw [leadingNumber?]
  simp only [htake, takeWhile_numeral hds hends, if_neg hds.ne_nil, List.drop_left]

theorem trimStart_numeral (hds : IsNumeral ds) (rest : List Char) :
    trimStart (ds ++ rest) = ds ++ rest := by
  obtain ⟨c, cs, rfl, hc⟩ := hds.exists_cons
  exact trimStart_cons (isSpace_of_isDigit hc)

theorem readPart?_append {n : Nat} (hn : n < 100) (hrest : EndsDigits rest) :
    readPart? ('-' :: (padNatural 2 n ++ rest)) = some (n, rest) := by
  have hlen : (padNatural 2 n).length = 2 := length_padNatural (by decide) hn
  rw [readPart?, trimStart_numeral (isNumeral_padNatural 2 n),
    leadingNumber?_append (isNumeral_padNatural 2 n) (Nat.le_of_eq hlen) hrest,
    digitsValue_padNatural]

theorem endsDigits_hyphen (rest : List Char) : EndsDigits ('-' :: rest) := by
  rintro c ⟨⟩
  decide

theorem readYear?_numeral (hds : IsNumeral ds) (hlen : ds.length ≤ 4) (hrest : EndsDigits rest) :
    readYear? (ds ++ rest) = some ((digitsValue 0 ds : Int), rest) := by
  unfold readYear?
  rw [trimStart_numeral hds]
  split
  · next heq => exact absurd heq (hds.append_ne_cons (by decide) rest _)
  · next heq => exact absurd heq (hds.append_ne_cons (by decide) rest _)
  · rw [leadingNumber?_append hds hlen hrest]
    rfl

theorem readYear?_append (year : Int) (rest : List Char) :
    readYear? (writeYear year ++ '-' :: rest) = some (year, '-' :: rest) := by
  have hrest := endsDigits_hyphen rest
  unfold writeYear
  split
  · next hyear =>
    have hlen : (padNatural 4 year.toNat).length = 4 := length_padNatural (by decide)
      (show year.toNat < 10000 by omega)
    rw [readYear?_numeral (isNumeral_padNatural 4 _) (Nat.le_of_eq hlen) hrest,
      digitsValue_padNatural, Int.toNat_of_nonneg hyear.1]
  · next hyear =>
    have hread : leadingNumber? (padNatural 4 year.natAbs ++ '-' :: rest).length
        (padNatural 4 year.natAbs ++ '-' :: rest) = some (year.natAbs, '-' :: rest) := by
      rw [leadingNumber?_append (isNumeral_padNatural 4 _) (by simp) hrest, digitsValue_padNatural]
    by_cases hneg : year < 0
    · rw [if_pos hneg, List.cons_append, readYear?, trimStart_cons (by decide)]
      simp only [hread, Option.map_some]
      rw [Int.ofNat_natAbs_of_nonpos (by omega), Int.neg_neg]
    · rw [if_neg hneg, List.cons_append, readYear?, trimStart_cons (by decide)]
      simp only [hread, Option.map_some]
      rw [Int.natAbs_of_nonneg (by omega)]

theorem toList_write (d : Date) : d.write.toList = writeYear d.year ++
    '-' :: (padNatural 2 d.month ++ '-' :: (padNatural 2 d.day ++ [])) := by
  rw [write, String.toList_ofList]
  simp

theorem read?_write (d : Date) : read? d.write.toList = some d := by
  obtain ⟨year, month, day, hvalid⟩ := d
  have hmonth : month < 100 := by
    have hle := month_le hvalid
    omega
  have hday : day < 100 := by
    have hle := day_le hvalid
    omega
  have hend : readPart? ('-' :: (padNatural 2 day ++ [])) = some (day, []) :=
    readPart?_append hday nofun
  rw [toList_write]
  simp only [read?, readYear?_append, readPart?_append hmonth (endsDigits_hyphen _), hend,
    Option.bind_eq_bind, Option.bind_some, if_true, ofYmd?, dif_pos hvalid]

/-- Behind the year, and the sign it may have, stands a hyphen. -/
theorem exists_toList_write (d : Date) : ∃ sign ds rest,
    d.write.toList = sign ++ (ds ++ '-' :: rest) ∧ IsNumeral ds ∧
      (sign = [] ∨ sign = ['-'] ∨ sign = ['+']) := by
  rw [toList_write]
  unfold writeYear
  split
  · exact ⟨[], _, _, rfl, isNumeral_padNatural 4 _, .inl rfl⟩
  · by_cases hneg : d.year < 0
    · rw [if_pos hneg]
      exact ⟨['-'], _, _, rfl, isNumeral_padNatural 4 _, .inr (.inl rfl)⟩
    · rw [if_neg hneg]
      exact ⟨['+'], _, _, rfl, isNumeral_padNatural 4 _, .inr (.inr rfl)⟩

/-! ## Texts that read as dates -/

/-- A text that reads as a date, as that date is written; any other as it is. -/
def respell (s : String) : String :=
  match read? s.toList with
  | some d => d.write
  | none => s

theorem respell_of_read {s : String} {d : Date} (h : read? s.toList = some d) :
    respell s = d.write := by
  rw [respell, h]

theorem respell_of_none {s : String} (h : read? s.toList = none) : respell s = s := by
  rw [respell, h]

theorem respell_eq_self_iff {s : String} :
    respell s = s ↔ ∀ d, read? s.toList = some d → s = d.write := by
  cases hread : read? s.toList with
  | none => simp [respell_of_none hread]
  | some d => simp [respell_of_read hread, eq_comm]

end Rulebook.Date
