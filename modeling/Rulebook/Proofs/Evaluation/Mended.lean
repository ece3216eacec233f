import Rulebook.Proofs.Evaluation.Proper

/-!
# What modifiers accept and what they mend

A check is read in two relations.  `Conforms s m v` says of every modifier which values it passes,
and `Mends m v w` what a forced one makes of the others:

    m.check s v = .ok .pass          ↔  Conforms s m v           (force plays no part)
    m.check s v = .ok (.mended w)    →  Mends m v w

Numbers count as decimals: an integer as the one nearest to it.
-/

namespace Rulebook

open Decimal

namespace Modifier

variable {s : CheckSetting} {m : Modifier} {v w : Value} {x : Float}

/-! ## Numbers -/

/-- The decimal that a number counts as. -/
inductive CountsAs : Value → Float → Prop
  | integer (n : Int64) : CountsAs (.integer n) (ofInt n.toInt)
  | decimal (x : Float) : CountsAs (.decimal x) x

/-- The decimal that is rounded. -/
inductive ReadsAs : Value → Float → Prop
  | decimal (x : Float) : ReadsAs (.decimal x) x
  | text {t : String} {x : Float} : readFinite? (Text.trim t.toList) = some x → ReadsAs (.text t) x

/-- One of the two rounding modifiers. -/
def Rounds (m : Modifier) (digits : Nat) : Prop := m = .roundUp digits ∨ m = .roundDown digits

theorem CountsAs.measure (h : CountsAs v x) : measure v = .ok x := by
  cases h <;> rfl

theorem exists_countsAs (h : v.isNumber = true) : ∃ x, CountsAs v x := by
  cases v with
  | integer n => exact ⟨_, .integer n⟩
  | decimal x => exact ⟨_, .decimal x⟩
  | null | bool | text | date | list | object => cases h

theorem checkMax_number (h : CountsAs v x) (limit : Float) (force : Bool) : ∃ detail,
    checkMax limit force v = .ok (if x ≤ limit then .pass
      else if force then .mended (numberLike v limit) else .fail .exceedsMax detail) := by
  cases h <;> exact ⟨_, rfl⟩

theorem checkMin_number (h : CountsAs v x) (limit : Float) (force : Bool) : ∃ detail,
    checkMin limit force v = .ok (if limit ≤ x then .pass
      else if force then .mended (numberLike v limit) else .fail .belowMin detail) := by
  cases h <;> exact ⟨_, rfl⟩

theorem checkRounding_read (h : ReadsAs v x) (code : ModifierCode) (digits : Nat)
    (up force : Bool) : ∃ detail, checkRounding code digits up force v =
      .ok (if hasDecimals digits x then .pass
        else if force then .mended (.decimal (roundTo digits up x))
        else .fail (if up then .notRoundedUp else .notRoundedDown) detail) := by
  cases h with
  | decimal => exact ⟨_, rfl⟩
  | text hread =>
    rw [checkRounding, roundable, hread]
    exact ⟨_, rfl⟩

theorem clamp?_eq_some_iff {lo hi y : Float} :
    clamp? lo hi x = some y ↔ lo ≤ hi ∧ clamp lo hi x = y := by
  rw [clamp?, Option.ite_none_right_eq_some, Option.some_inj]

theorem checkRange_measured {low : Value} (hdate : isDateRange low = false)
    (h : measure v = .ok x) (high : Value) (force : Bool) : ∃ detail, checkRange low high force v =
      if lowBound low high ≤ x ∧ x ≤ highBound low high then .ok .pass
      else if force && v.isNumber then
        match clamp? (lowBound low high) (highBound low high) x with
        | some y => .ok (.mended (numberLike v y))
        | none => .error .unordered
      else .ok (.fail .outOfRange detail) := by
  rw [checkRange, if_neg (Bool.eq_false_iff.1 hdate), h]
  refine ⟨_, if_congr ?_ rfl rfl⟩
  rw [Bool.and_eq_true, decide_eq_true_iff, decide_eq_true_iff]
  rfl

/-! ## What passes -/

/-- The values that a modifier passes. -/
inductive Conforms (s : CheckSetting) : Modifier → Value → Prop
  /-- Only `r` does not pass null. -/
  | null {m : Modifier} : m.code ≠ .required → Conforms s m .null
  | upper {t : String} : Text.upper t = t → Conforms s .upper (.text t)
  | lower {t : String} : Text.lower t = t → Conforms s .lower (.text t)
  | ignoreCase (v : Value) : Conforms s .ignoreCase v
  | maxText {limit : Float} {t : String} : ofNat t.length ≤ limit →
      Conforms s (.max limit) (.text t)
  | maxList {limit : Float} {items : List Value} : ofNat items.length ≤ limit →
      Conforms s (.max limit) (.list items)
  | max {limit x : Float} {v : Value} : CountsAs v x → x ≤ limit → Conforms s (.max limit) v
  | minText {limit : Float} {t : String} : limit ≤ ofNat t.length →
      Conforms s (.min limit) (.text t)
  | minList {limit : Float} {items : List Value} : limit ≤ ofNat items.length →
      Conforms s (.min limit) (.list items)
  | min {limit x : Float} {v : Value} : CountsAs v x → limit ≤ x → Conforms s (.min limit) v
  | email {t : String} : Text.trim t.toList = [] ∨ isAddress (Text.trim t.toList) = true →
      Conforms s .email (.text t)
  | oneOf {members : List Member} {v : Value} : members.any (Member.admits s.ignoreCase v) = true →
      Conforms s (.oneOf members) v
  | inTable {columns : List Column} {v : Value} {l : Lookup} : s.lookup = some l →
      foundIn l v columns = .ok true → Conforms s (.inTable columns) v
  | required {v : Value} : isPresent v = true → Conforms s .required v
  | wholeUp (digits : Nat) (n : Int64) : Conforms s (.roundUp digits) (.integer n)
  | wholeDown (digits : Nat) (n : Int64) : Conforms s (.roundDown digits) (.integer n)
  | roundUp {digits : Nat} {v : Value} {x : Float} : ReadsAs v x → hasDecimals digits x = true →
      Conforms s (.roundUp digits) v
  | roundDown {digits : Nat} {v : Value} {x : Float} : ReadsAs v x → hasDecimals digits x = true →
      Conforms s (.roundDown digits) v
  | dates {low high v : Value} {d : Date} : isDateRange low = true → v.asDate? = some d →
      dateWithin low high d = true → Conforms s (.between low high) v
  | between {low high v : Value} {x : Float} : isDateRange low = false → measure v = .ok x →
      lowBound low high ≤ x ∧ x ≤ highBound low high → Conforms s (.between low high) v

theorem of_ite_pass {P : Prop} [Decidable P] {u : Verdict} (hu : u ≠ .pass)
    (h : (.ok (if P then .pass else u) : Except EvalError Verdict) = .ok .pass) : P := by
  by_contra hp
  rw [if_neg hp] at h
  exact hu (Except.ok.inj h)

theorem of_ite_fail {P : Prop} [Decidable P] {kind : FailureKind} {detail : String}
    (h : (.ok (if P then .pass else .fail kind detail) : Except EvalError Verdict) = .ok .pass) :
    P := of_ite_pass (by nofun) h

theorem of_ite_mended {P : Prop} [Decidable P] {force : Bool} {kind : FailureKind}
    {detail : String} (h : (.ok (if P then .pass
      else if force then .mended w else .fail kind detail) : Except EvalError Verdict) =
        .ok .pass) : P := of_ite_pass (by cases force <;> nofun) h

theorem conforms_of_checkRounding {code : ModifierCode} {digits : Nat} {up force : Bool}
    (h : checkRounding code digits up force v = .ok .pass) :
    (∃ n, v = .integer n) ∨ ∃ x, ReadsAs v x ∧ hasDecimals digits x = true := by
  cases v with
  | integer n => exact .inl ⟨n, rfl⟩
  | decimal x =>
    obtain ⟨detail, hdetail⟩ := checkRounding_read (.decimal x) code digits up force
    rw [hdetail] at h
    exact .inr ⟨x, .decimal x, of_ite_mended h⟩
  | text t =>
    cases hread : readFinite? (Text.trim t.toList) with
    | none => simp [checkRounding, roundable, hread] at h
    | some x =>
      obtain ⟨detail, hdetail⟩ := checkRounding_read (.text hread) code digits up force
      rw [hdetail] at h
      exact .inr ⟨x, .text hread, of_ite_mended h⟩
  | null | bool | date | list | object => cases h

theorem conforms_of_checkRange {low high : Value} {force : Bool}
    (h : checkRange low high force v = .ok .pass) : Conforms s (.between low high) v := by
  cases hdate : isDateRange low with
  | true =>
    rw [checkRange, if_pos hdate] at h
    cases hd : v.asDate? with
    | none => simp [hd] at h
    | some d =>
      rw [hd] at h
      dsimp only at h
      exact .dates hdate hd (of_ite_fail h)
  | false =>
    cases hmeasure : measure v with
    | error e =>
      rw [checkRange, if_neg (Bool.eq_false_iff.1 hdate), hmeasure] at h
      cases h
    | ok x =>
      obtain ⟨detail, hdetail⟩ := checkRange_measured hdate hmeasure high force
      rw [hdetail] at h
      split at h
      · next hwithin => exact .between hdate hmeasure hwithin
      · split at h
        · split at h <;> cases h
        · cases h

theorem conforms_of_checkValue (h : checkValue m s v = .ok .pass) : Conforms s m v := by
  cases m with
  | upper =>
    cases v with
    | text t => exact .upper (of_ite_mended h)
    | null | bool | integer | decimal | date | list | object => cases h
  | lower =>
    cases v with
    | text t => exact .lower (of_ite_mended h)
    | null | bool | integer | decimal | date | list | object => cases h
  | ignoreCase => exact .ignoreCase v
  | max limit =>
    cases v with
    | text t => exact .maxText (of_ite_mended h)
    | list items => exact .maxList (of_ite_mended h)
    | integer n => exact .max (.integer n) (of_ite_mended h)
    | decimal x => exact .max (.decimal x) (of_ite_mended h)
    | null | bool | date | object => cases h
  | min limit =>
    cases v with
    | text t => exact .minText (of_ite_fail h)
    | list items => exact .minList (of_ite_fail h)
    | integer n => exact .min (.integer n) (of_ite_mended h)
    | decimal x => exact .min (.decimal x) (of_ite_mended h)
    | null | bool | date | object => cases h
  | email =>
    cases v with
    | text t =>
      have haddress := of_ite_fail h
      rw [Bool.or_eq_true, List.isEmpty_iff] at haddress
      exact .email haddress
    | null | bool | integer | decimal | date | list | object => cases h
  | oneOf members => exact .oneOf (of_ite_fail h)
  | inTable columns =>
    cases hlookup : s.lookup with
    | none => simp [checkValue, checkTables, hlookup] at h
    | some l =>
      unfold checkValue checkTables at h
      rw [hlookup] at h
      dsimp only at h
      split at h
      · cases h
      · next hfound => exact .inTable hlookup hfound
      · cases h
  | required => exact .required (of_ite_fail h)
  | roundUp digits =>
    obtain ⟨n, rfl⟩ | ⟨x, hread, hx⟩ := conforms_of_checkRounding h
    · exact .wholeUp digits n
    · exact .roundUp hread hx
  | roundDown digits =>
    obtain ⟨n, rfl⟩ | ⟨x, hread, hx⟩ := conforms_of_checkRounding h
    · exact .wholeDown digits n
    · exact .roundDown hread hx
  | between low high => exact conforms_of_checkRange h

theorem checkValue_of_conforms (hnull : v.isNull = false) (h : Conforms s m v) :
    checkValue m s v = .ok .pass := by
  cases h with
  | null => cases hnull
  | upper ht | lower ht => exact congrArg Except.ok (if_pos ht)
  | ignoreCase => rfl
  | maxText h | maxList h | minText h | minList h => exact congrArg Except.ok (if_pos h)
  | max hx h =>
    obtain ⟨detail, hdetail⟩ := checkMax_number hx _ s.force
    exact hdetail.trans (congrArg Except.ok (if_pos h))
  | min hx h =>
    obtain ⟨detail, hdetail⟩ := checkMin_number hx _ s.force
    exact hdetail.trans (congrArg Except.ok (if_pos h))
  | email h =>
    refine congrArg Except.ok (if_pos ?_)
    rw [Bool.or_eq_true, List.isEmpty_iff]
    exact h
  | oneOf h | required h => exact congrArg Except.ok (if_pos h)
  | inTable hlookup h =>
    simp only [checkValue, checkTables, hlookup, h]
  | wholeUp | wholeDown => rfl
  | roundUp hread h | roundDown hread h =>
    obtain ⟨detail, hdetail⟩ := checkRounding_read hread _ _ _ s.force
    exact hdetail.trans (congrArg Except.ok (if_pos h))
  | dates hdate hd h =>
    rw [checkValue, checkRange, if_pos hdate, hd]
    exact congrArg Except.ok (if_pos h)
  | between hdate hmeasure h =>
    obtain ⟨detail, hdetail⟩ := checkRange_measured hdate hmeasure _ s.force
    exact hdetail.trans (if_pos h)

/-- **What passes, whether forced or not.** -/
theorem check_eq_pass_iff : m.check s v = .ok .pass ↔ Conforms s m v := by
  unfold check
  by_cases hnull : v.isNull = true
  · have hv : v = .null := by
      cases v <;> first | rfl | cases hnull
    subst hv
    by_cases hcode : m.code = .required
    · have hm : m = .required := by
        cases m <;> first | rfl | cases hcode
      subst hm
      refine iff_of_false nofun fun h => ?_
      cases h with
      | null h => exact h rfl
      | required h => cases h
    · rw [if_pos (by rw [hnull, bne_iff_ne.2 hcode]; rfl)]
      exact iff_of_true rfl (.null hcode)
  · have hnull' := Bool.eq_false_iff.2 hnull
    rw [hnull', Bool.false_and, if_neg Bool.false_ne_true]
    exact ⟨conforms_of_checkValue, checkValue_of_conforms hnull'⟩

/-- Force plays no part in what passes. -/
theorem Conforms.of_force {force force' ignoreCase : Bool} {lookup : Option Lookup}
    (h : Conforms ⟨force, ignoreCase, lookup⟩ m v) : Conforms ⟨force', ignoreCase, lookup⟩ m v := by
  cases h with
  | between hdate hmeasure h => exact .between hdate hmeasure h
  | _ => constructor <;> assumption

/-! ## What is mended -/

/-- What a forced modifier makes of a value that it does not pass. -/
inductive Mends : Modifier → Value → Value → Prop
  | upper {t : String} : Text.upper t ≠ t → Mends .upper (.text t) (.text (Text.upper t))
  | lower {t : String} : Text.lower t ≠ t → Mends .lower (.text t) (.text (Text.lower t))
  | cutText {limit : Float} {t : String} : ¬ofNat t.length ≤ limit →
      Mends (.max limit) (.text t) (.text (String.ofList (t.toList.take (room limit))))
  | cutList {limit : Float} {items : List Value} : ¬ofNat items.length ≤ limit →
      Mends (.max limit) (.list items) (.list (items.take (room limit)))
  | max {limit x : Float} {v : Value} : CountsAs v x → ¬x ≤ limit →
      Mends (.max limit) v (numberLike v limit)
  | min {limit x : Float} {v : Value} : CountsAs v x → ¬limit ≤ x →
      Mends (.min limit) v (numberLike v limit)
  | roundUp {digits : Nat} {v : Value} {x : Float} : ReadsAs v x → hasDecimals digits x = false →
      Mends (.roundUp digits) v (.decimal (roundTo digits true x))
  | roundDown {digits : Nat} {v : Value} {x : Float} : ReadsAs v x → hasDecimals digits x = false →
      Mends (.roundDown digits) v (.decimal (roundTo digits false x))
  | between {low high v : Value} {x : Float} : isDateRange low = false → CountsAs v x →
      ¬(lowBound low high ≤ x ∧ x ≤ highBound low high) → Mends (.between low high) v
        (numberLike v (clamp (lowBound low high) (highBound low high) x))

/-- What a check puts in place of a value, if anything. -/
def mended? (m : Modifier) (s : CheckSetting) (v : Value) : Option Value :=
  match m.check s v with
  | .ok (.mended w) => some w
  | _ => none

theorem mended?_eq_some_iff : m.mended? s v = some w ↔ m.check s v = .ok (.mended w) := by
  unfold mended?
  split
  · next u hu => rw [hu, Option.some_inj, Except.ok.injEq, Verdict.mended.injEq]
  · next hnot => exact iff_of_false nofun (hnot w)

theorem mended_of_ite {P : Prop} [Decidable P] {force : Bool} {kind : FailureKind}
    {detail : String} {u : Value} (h : (.ok (if P then .pass
      else if force then .mended u else .fail kind detail) : Except EvalError Verdict) =
        .ok (.mended w)) : ¬P ∧ force = true ∧ w = u := by
  by_cases hp : P
  · rw [if_pos hp] at h
    cases h
  · rw [if_neg hp] at h
    cases force
    · cases h
    · cases h
      exact ⟨hp, rfl, rfl⟩

theorem fail_ne_mended {P : Prop} [Decidable P] {kind : FailureKind} {detail : String} :
    (.ok (if P then .pass else .fail kind detail) : Except EvalError Verdict) ≠
      .ok (.mended w) := by
  split <;> nofun

theorem mended_of_checkRounding {code : ModifierCode} {digits : Nat} {up force : Bool}
    (h : checkRounding code digits up force v = .ok (.mended w)) :
    ∃ x, ReadsAs v x ∧ hasDecimals digits x = false ∧ w = .decimal (roundTo digits up x) := by
  have hread : ∃ x, ReadsAs v x := by
    cases v with
    | decimal x => exact ⟨x, .decimal x⟩
    | text t =>
      cases hread : readFinite? (Text.trim t.toList) with
      | none => simp [checkRounding, roundable, hread] at h
      | some x => exact ⟨x, .text hread⟩
    | integer | null | bool | date | list | object => cases h
  obtain ⟨x, hx⟩ := hread
  obtain ⟨detail, hdetail⟩ := checkRounding_read hx code digits up force
  rw [hdetail] at h
  obtain ⟨hnot, -, hw⟩ := mended_of_ite h
  exact ⟨x, hx, Bool.eq_false_iff.2 hnot, hw⟩

theorem mends_of_checkRange {low high : Value} {force : Bool}
    (h : checkRange low high force v = .ok (.mended w)) : Mends (.between low high) v w := by
  cases hdate : isDateRange low with
  | true =>
    rw [checkRange, if_pos hdate] at h
    cases hd : v.asDate? with
    | none => simp [hd] at h
    | some d =>
      rw [hd] at h
      exact absurd h fail_ne_mended
  | false =>
    cases hmeasure : measure v with
    | error e =>
      rw [checkRange, if_neg (Bool.eq_false_iff.1 hdate), hmeasure] at h
      cases h
    | ok x =>
      obtain ⟨detail, hdetail⟩ := checkRange_measured hdate hmeasure high force
      rw [hdetail] at h
      split at h
      · cases h
      · next hout =>
        split at h
        · next hforce =>
          rw [Bool.and_eq_true] at hforce
          obtain ⟨y, hy⟩ := exists_countsAs hforce.2
          have hxy : x = y := Except.ok.inj (hmeasure.symm.trans hy.measure)
          subst hxy
          split at h
          · next z hz =>
            obtain ⟨-, rfl⟩ := clamp?_eq_some_iff.1 hz
            cases h
            exact .between hdate hy hout
          · cases h
        · cases h

theorem mends_of_checkValue (h : checkValue m s v = .ok (.mended w)) : Mends m v w := by
  cases m with
  | upper =>
    cases v with
    | text t =>
      obtain ⟨ht, -, rfl⟩ := mended_of_ite h
      exact .upper ht
    | null | bool | integer | decimal | date | list | object => cases h
  | lower =>
    cases v with
    | text t =>
      obtain ⟨ht, -, rfl⟩ := mended_of_ite h
      exact .lower ht
    | null | bool | integer | decimal | date | list | object => cases h
  | ignoreCase => cases h
  | max limit =>
    cases v with
    | text t =>
      obtain ⟨ht, -, rfl⟩ := mended_of_ite h
      exact .cutText ht
    | list items =>
      obtain ⟨ht, -, rfl⟩ := mended_of_ite h
      exact .cutList ht
    | integer n =>
      obtain ⟨hn, -, rfl⟩ := mended_of_ite h
      exact .max (.integer n) hn
    | decimal x =>
      obtain ⟨hx, -, rfl⟩ := mended_of_ite h
      exact .max (.decimal x) hx
    | null | bool | date | object => cases h
  | min limit =>
    cases v with
    | text | list => exact absurd h fail_ne_mended
    | integer n =>
      obtain ⟨hn, -, rfl⟩ := mended_of_ite h
      exact .min (.integer n) hn
    | decimal x =>
      obtain ⟨hx, -, rfl⟩ := mended_of_ite h
      exact .min (.decimal x) hx
    | null | bool | date | object => cases h
  | email =>
    cases v with
    | text t => exact absurd h fail_ne_mended
    | null | bool | integer | decimal | date | list | object => cases h
  | oneOf members => exact absurd h fail_ne_mended
  | inTable columns =>
    simp only [checkValue, checkTables] at h
    split at h
    · cases h
    · split at h <;> cases h
  | required => exact absurd h fail_ne_mended
  | roundUp digits =>
    obtain ⟨x, hx, hnot, rfl⟩ := mended_of_checkRounding h
    exact .roundUp hx hnot
  | roundDown digits =>
    obtain ⟨x, hx, hnot, rfl⟩ := mended_of_checkRounding h
    exact .roundDown hx hnot
  | between low high => exact mends_of_checkRange h

/-- **What is mended.** -/
theorem mends_of_check (h : m.check s v = .ok (.mended w)) : Mends m v w := by
  unfold check at h
  split at h
  · cases h
  · exact mends_of_checkValue h

end Modifier

end Rulebook
