import Rulebook.Rule.Argument
import Rulebook.Proofs.Outcome
import Mathlib.Data.List.Forall2

/-!
# The arguments that modifiers accept

`Accepts code args m` says, rule by rule, which arguments a code takes and which modifier they make.
`Modifier.build` finds exactly these:

    build word args = .ok m ↔ ∃ code, lowerAscii word = code.text ∧ Accepts code args m
-/

namespace Rulebook.Grammar

open Text

/-! ## Rules -/

/-- The numeral of a finite decimal, white space around it ignored. -/
def IsLimit (a : Argument) (x : Float) : Prop := Decimal.readFinite? (trim a.text.toList) = some x

/-- Nothing, or the numeral of at most fifteen decimals. -/
inductive DigitsForm : List Argument → Nat → Prop
  | absent : DigitsForm [] 0
  | given {a n} : natural? (trim a.text.toList) = some n → n ≤ 15 → DigitsForm [a] n

/-- `column.value` without quotes, where the column is an identifier and the value is not empty. -/
def IsField (a : Argument) (column value : List Char) : Prop :=
  a.quoted = false ∧ a.text.toList = column ++ '.' :: value ∧ isIdentifier column = true ∧
    value ≠ []

/-- A member of a list of alternatives: a field, or else the value itself. -/
inductive MemberForm : Argument → Member → Prop
  | field {a column value} : IsField a column value →
      MemberForm a (.field (String.ofList column) (.literal (String.ofList value)))
  | value {a} : (∀ column value, ¬ IsField a column value) → MemberForm a (.value a.value)

/-- `table.column`, cut at the first point. -/
inductive ColumnForm : Argument → Column → Prop
  | mk {a table column} : a.text.toList = table ++ '.' :: column → '.' ∉ table → table ≠ [] →
      column ≠ [] → ColumnForm a ⟨String.ofList (trim table), String.ofList (trim column)⟩

/-- The literal of a number or of a date. -/
inductive BoundForm : Argument → Value → Prop
  | mk {a} : ((Value.literal a.text).asDecimal?.isSome ∨ (Value.literal a.text).asDate?.isSome) →
      BoundForm a (.literal a.text)

/-- The arguments that a code takes, and the modifier that they make. -/
inductive Accepts : ModifierCode → List Argument → Modifier → Prop
  | upper : Accepts .upper [] .upper
  | lower : Accepts .lower [] .lower
  | ignoreCase : Accepts .ignoreCase [] .ignoreCase
  | email : Accepts .email [] .email
  | required : Accepts .required [] .required
  | max {a x} : IsLimit a x → Accepts .max [a] (.max x)
  | min {a x} : IsLimit a x → Accepts .min [a] (.min x)
  | oneOf {as ms} : as ≠ [] → List.Forall₂ MemberForm as ms → Accepts .oneOf as (.oneOf ms)
  | inTable {as cs} : as ≠ [] → List.Forall₂ ColumnForm as cs → Accepts .inTable as (.inTable cs)
  | roundUp {as n} : DigitsForm as n → Accepts .roundUp as (.roundUp n)
  | roundDown {as n} : DigitsForm as n → Accepts .roundDown as (.roundDown n)
  | between {a b low high} : BoundForm a low → BoundForm b high →
      Value.compareLoose false low high ≠ .gt → Accepts .between [a, b] (.between low high)

/-! ## Lemmas -/

theorem dot_not_mem_of_isIdentifier {cs : List Char} (h : isIdentifier cs = true) : '.' ∉ cs := by
  cases cs with
  | nil => simp
  | cons c cs =>
    simp only [isIdentifier, Bool.and_eq_true, List.all_eq_true] at h
    intro hm
    rcases List.mem_cons.1 hm with rfl | hm
    · exact absurd h.1 (by decide)
    · exact absurd (h.2 _ hm) (by decide)

theorem isField_iff {a : Argument} {column value : List Char} :
    IsField a column value ↔
      a.quoted = false ∧ cutOnce '.' a.text.toList = some (column, value) ∧
        isIdentifier column = true ∧ value ≠ [] := by
  unfold IsField
  rw [cutOnce_eq_some_iff]
  constructor
  · rintro ⟨hq, ht, hi, hv⟩
    exact ⟨hq, ⟨ht, dot_not_mem_of_isIdentifier hi⟩, hi, hv⟩
  · rintro ⟨hq, ⟨ht, -⟩, hi, hv⟩
    exact ⟨hq, ht, hi, hv⟩

theorem member_form (a : Argument) : MemberForm a (Modifier.member a) := by
  unfold Modifier.member
  split
  · next column value hcut =>
    split
    · next hf =>
      simp only [Bool.and_eq_true, Bool.not_eq_true', List.isEmpty_eq_false_iff] at hf
      exact .field (isField_iff.2 ⟨hf.1.1, hcut, hf.1.2, hf.2⟩)
    · next hf =>
      refine .value fun c v h => hf ?_
      obtain ⟨hq, hc, hi, hv⟩ := isField_iff.1 h
      rw [hcut] at hc
      cases hc
      simp [hq, hi, hv]
  · next hcut =>
    refine .value fun c v h => ?_
    have hc := (isField_iff.1 h).2.1
    rw [hcut] at hc
    cases hc

theorem memberForm_iff {a : Argument} {m : Member} : MemberForm a m ↔ m = Modifier.member a := by
  constructor
  · intro h
    have hs := member_form a
    generalize Modifier.member a = m' at hs
    cases h with
    | field hf =>
      cases hs with
      | field hg =>
        have he := (isField_iff.1 hf).2.1.symm.trans (isField_iff.1 hg).2.1
        cases he
        rfl
      | value hn => exact absurd hf (hn _ _)
    | value hn =>
      cases hs with
      | field hg => exact absurd hg (hn _ _)
      | value _ => rfl
  · rintro rfl
    exact member_form a

theorem forall₂_memberForm_iff {as : List Argument} {ms : List Member} :
    List.Forall₂ MemberForm as ms ↔ ms = as.map Modifier.member := by
  constructor
  · intro h
    induction h with
    | nil => rfl
    | cons h _ ih => rw [List.map_cons, memberForm_iff.1 h, ih]
  · rintro rfl
    induction as with
    | nil => exact .nil
    | cons a as ih => exact .cons (member_form a) ih

theorem column_ok_iff {a : Argument} {c : Column} :
    Modifier.column a = .ok c ↔ ColumnForm a c := by
  unfold Modifier.column
  constructor
  · intro h
    split at h
    · next table column hcut =>
      obtain ⟨ht, hn⟩ := cutOnce_eq_some hcut
      split at h
      · cases h
      · next hne =>
        simp only [Bool.or_eq_true, List.isEmpty_iff, not_or] at hne
        cases h
        exact .mk ht hn hne.1 hne.2
    · cases h
  · rintro ⟨ht, hn, h1, h2⟩
    rw [cutOnce_eq_some_iff.2 ⟨ht, hn⟩]
    simp [h1, h2]

theorem columns_ok_iff {as : List Argument} {cs : List Column} :
    Modifier.columns as = .ok cs ↔ List.Forall₂ ColumnForm as cs := by
  induction as generalizing cs with
  | nil =>
    simp only [Modifier.columns, Except.ok.injEq, List.forall₂_nil_left_iff]
    exact eq_comm
  | cons a as ih =>
    rw [Modifier.columns, List.forall₂_cons_left_iff]
    constructor
    · intro h
      cases hc : Modifier.column a with
      | error e => rw [hc] at h; cases h
      | ok c =>
        cases hr : Modifier.columns as with
        | error e => rw [hc, hr] at h; cases h
        | ok rest =>
          rw [hc, hr] at h
          cases h
          exact ⟨c, rest, column_ok_iff.1 hc, ih.1 hr, rfl⟩
    · rintro ⟨c, rest, hc, hr, rfl⟩
      rw [column_ok_iff.2 hc, ih.2 hr]
      rfl

theorem bound_ok_iff {a : Argument} {v : Value} : Modifier.bound a = .ok v ↔ BoundForm a v := by
  unfold Modifier.bound
  constructor
  · intro h
    dsimp only at h
    split at h
    · next hb =>
      -- by name, since `cases` would compare the two literals by evaluation
      rw [← Except.ok.inj h]
      exact .mk (by simpa using hb)
    · cases h
  · rintro ⟨hb⟩
    rw [if_pos (by simpa using hb)]

theorem limit_ok_iff {code : ModifierCode} {args : List Argument} {x : Float} :
    Modifier.limit code args = .ok x ↔ ∃ a, args = [a] ∧ IsLimit a x := by
  unfold Modifier.limit IsLimit
  split
  · simp
  · next a =>
    cases h : Decimal.readFinite? (trim a.text.toList) <;> simp [h]
  · simp

theorem digits_ok_iff {code : ModifierCode} {args : List Argument} {n : Nat} :
    Modifier.digits code args = .ok n ↔ DigitsForm args n := by
  constructor
  · intro h
    unfold Modifier.digits at h
    split at h
    · cases h
      exact .absent
    · next a =>
      split at h
      · next k hk =>
        cases h
        obtain ⟨hr, hle⟩ := Option.filter_eq_some_iff.1 hk
        exact .given hr (by simpa using hle)
      · cases h
    · cases h
  · intro h
    cases h with
    | absent => rfl
    | given hr hle => simp [Modifier.digits, hr, Option.filter, hle]

theorem range_ok_iff {args : List Argument} {m : Modifier} :
    Modifier.range args = .ok m ↔ Accepts .between args m := by
  constructor
  · intro h
    unfold Modifier.range at h
    split at h
    · cases h
    · cases h
    · next a b =>
      cases hl : Modifier.bound a with
      | error e => rw [hl] at h; cases h
      | ok low =>
        cases hh : Modifier.bound b with
        | error e => rw [hl, hh] at h; cases h
        | ok high =>
          rw [hl, hh] at h
          simp only [bind, Except.bind] at h
          split at h
          · cases h
          · next hgt =>
            cases h
            exact .between (bound_ok_iff.1 hl) (bound_ok_iff.1 hh) hgt
    · cases h
  · rintro ⟨⟩
    next a b low high hl hh hgt =>
    rw [Modifier.range, bound_ok_iff.2 hl, bound_ok_iff.2 hh]
    simp only [bind, Except.bind]
    rw [if_neg hgt]

theorem bare_ok_iff {m m' : Modifier} {args : List Argument} :
    Modifier.bare m args = .ok m' ↔ args = [] ∧ m' = m := by
  cases args with
  | nil => simp [Modifier.bare, eq_comm]
  | cons a as => simp [Modifier.bare]

/-! ## Building modifiers -/

/-- A code makes a modifier of exactly the arguments it takes. -/
theorem ofCode_ok_iff {code : ModifierCode} {args : List Argument} {m : Modifier} :
    Modifier.ofCode code args = .ok m ↔ Accepts code args m := by
  cases code with
  | upper | lower | ignoreCase | email | required =>
    rw [Modifier.ofCode, bare_ok_iff]
    constructor
    · rintro ⟨rfl, rfl⟩
      constructor
    · rintro ⟨⟩
      exact ⟨rfl, rfl⟩
  | max | min =>
    simp only [Modifier.ofCode, map_ok_iff, limit_ok_iff]
    constructor
    · rintro ⟨x, ⟨a, rfl, hx⟩, rfl⟩
      constructor
      exact hx
    · rintro ⟨⟩
      next hx => exact ⟨_, ⟨_, rfl, hx⟩, rfl⟩
  | oneOf =>
    simp only [Modifier.ofCode]
    constructor
    · intro h
      split at h
      · cases h
      · next hne =>
        cases h
        exact .oneOf (by simpa using hne) (forall₂_memberForm_iff.2 rfl)
    · rintro ⟨⟩
      next ms hne hm => rw [if_neg (by simpa using hne), forall₂_memberForm_iff.1 hm]
  | inTable =>
    simp only [Modifier.ofCode]
    constructor
    · intro h
      split at h
      · cases h
      · next hne =>
        obtain ⟨cs, hc, rfl⟩ := map_ok_iff.1 h
        exact .inTable (by simpa using hne) (columns_ok_iff.1 hc)
    · rintro ⟨⟩
      next cs hne hc =>
      rw [if_neg (by simpa using hne), columns_ok_iff.2 hc]
      rfl
  | roundUp | roundDown =>
    simp only [Modifier.ofCode, map_ok_iff, digits_ok_iff]
    constructor
    · rintro ⟨n, hn, rfl⟩
      constructor
      exact hn
    · rintro ⟨⟩
      next hn => exact ⟨_, hn, rfl⟩
  | between => exact range_ok_iff

theorem ofText?_eq_some_iff {s : String} {code : ModifierCode} :
    ModifierCode.ofText? s = some code ↔ s = code.text := by
  constructor
  · intro h
    unfold ModifierCode.ofText? at h
    have hb := List.find?_some h
    exact (eq_of_beq hb).symm
  · rintro rfl
    cases code <;> decide

/-- The codes are read in any case; a code makes a modifier of exactly the arguments it takes. -/
theorem build_ok_iff {word : String} {args : List Argument} {m : Modifier} :
    Modifier.build word args = .ok m ↔
      ∃ code, lowerAscii word = code.text ∧ Accepts code args m := by
  unfold Modifier.build
  dsimp only
  cases h : ModifierCode.ofText? (lowerAscii word) with
  | none =>
    constructor
    · intro hm
      cases hm
    · rintro ⟨code, hc, -⟩
      rw [ofText?_eq_some_iff.2 hc] at h
      cases h
  | some code =>
    have hc := ofText?_eq_some_iff.1 h
    constructor
    · intro hm
      exact ⟨code, hc, ofCode_ok_iff.1 hm⟩
    · rintro ⟨code', hc', hm⟩
      rw [ofText?_eq_some_iff.2 hc'] at h
      cases h
      exact ofCode_ok_iff.2 hm

end Rulebook.Grammar
