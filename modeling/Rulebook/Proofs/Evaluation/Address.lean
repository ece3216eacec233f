import Mathlib.Computability.Language
import Rulebook.Rule.Check

/-!
# E-mail addresses

An address is a name and at least two labels, with an `@` and points between them:

    name@label.label.last

`IsAddress` asks for some such split of the text.  The last label may be a label like any other, but
no name holds an `@` and no label a point, so the split at the first `@` and at every point is the
only one to look at (`isAddress_iff`).  The same texts are the language of the regular expression

    [A-Za-z0-9._%+-]+@[A-Za-z0-9-]+(\.[A-Za-z0-9-]+)*\.[A-Za-z]{2,}

which is `Address.pattern` here (`mem_pattern_iff`).
-/

namespace Rulebook.Modifier

open Text

variable {n : Nat} {p q : Char → Bool} {cs : List Char} {c : Char} {labels : List (List Char)}

/-! ## Addresses -/

/-- At least `n` characters, all of a class. -/
structure IsRun (n : Nat) (p : Char → Bool) (cs : List Char) : Prop where
  length : n ≤ cs.length
  chars : ∀ c ∈ cs, p c = true

/-- At least two labels, the last of them two letters or more. -/
def AreLabels (labels : List (List Char)) : Prop :=
  ∃ front last, labels = front ++ [last] ∧ front ≠ [] ∧
    (∀ label ∈ front, IsRun 1 isLabelChar label) ∧ IsRun 2 isLetter last

/-- A name, and labels with points between them. -/
def IsAddress (cs : List Char) : Prop :=
  ∃ name labels, cs = name ++ '@' :: List.intercalate ['.'] labels ∧
    IsRun 1 isLocalChar name ∧ AreLabels labels

theorem isRun_iff : IsRun n p cs ↔ n ≤ cs.length ∧ cs.all p = true := by
  rw [List.all_eq_true]
  exact ⟨fun h => ⟨h.length, h.chars⟩, fun h => ⟨h.1, h.2⟩⟩

theorem isRun_one_iff : IsRun 1 p cs ↔ cs ≠ [] ∧ cs.all p = true := by
  rw [isRun_iff, Nat.succ_le_iff, List.length_pos_iff]

theorem IsRun.not_mem (h : IsRun n p cs) (hc : p c = false) : c ∉ cs := by
  intro hmem
  simp [h.chars c hmem] at hc

theorem areLabels_pair {label last : List Char} :
    AreLabels [label, last] ↔ IsRun 1 isLabelChar label ∧ IsRun 2 isLetter last := by
  constructor
  · rintro ⟨front, last', hsplit, hne, hfront, hlast⟩
    have happend : [label] ++ [last] = front ++ [last'] := hsplit
    obtain ⟨rfl, ⟨⟩⟩ := List.append_inj' happend rfl
    exact ⟨hfront label List.mem_cons_self, hlast⟩
  · rintro ⟨hlabel, hlast⟩
    exact ⟨[label], last, rfl, List.cons_ne_nil label [], by simpa using hlabel, hlast⟩

theorem areLabels_cons {label : List Char} (h : 2 ≤ labels.length) :
    AreLabels (label :: labels) ↔ IsRun 1 isLabelChar label ∧ AreLabels labels := by
  constructor
  · rintro ⟨_ | ⟨l, front⟩, last, hsplit, hne, hfront, hlast⟩
    · exact absurd rfl hne
    · obtain ⟨rfl, rfl⟩ := List.cons.inj hsplit
      rw [List.forall_mem_cons] at hfront
      refine ⟨hfront.1, front, last, rfl, ?_, hfront.2, hlast⟩
      rintro rfl
      simp at h
  · rintro ⟨hlabel, front, last, rfl, hne, hfront, hlast⟩
    exact ⟨label :: front, last, rfl, List.cons_ne_nil label front,
      List.forall_mem_cons.2 ⟨hlabel, hfront⟩, hlast⟩

theorem AreLabels.two_le (h : AreLabels labels) : 2 ≤ labels.length := by
  obtain ⟨front, last, rfl, hne, -⟩ := h
  have hpos := List.length_pos_of_ne_nil hne
  rw [List.length_append, List.length_singleton]
  omega

theorem isDomain_iff : isDomain labels = true ↔ AreLabels labels := by
  fun_induction isDomain labels with
  | case1 => exact iff_of_false Bool.false_ne_true fun h => by simpa using h.two_le
  | case2 => exact iff_of_false Bool.false_ne_true fun h => by simpa using h.two_le
  | case3 label last =>
    rw [areLabels_pair, isRun_one_iff, isRun_iff]
    simp [and_assoc]
  | case4 label rest hone htwo ih =>
    have hlen : 2 ≤ rest.length := by
      match rest, hone, htwo with
      | [], hone, _ => exact absurd rfl hone
      | [last], _, htwo => exact absurd rfl (htwo last)
      | _ :: _ :: _, _, _ => simp
    rw [areLabels_cons hlen, isRun_one_iff, ← ih]
    simp

/-- A point is in no label. -/
theorem AreLabels.no_point (h : AreLabels labels) : ∀ label ∈ labels, '.' ∉ label := by
  obtain ⟨front, last, rfl, -, hfront, hlast⟩ := h
  rw [List.forall_mem_append, List.forall_mem_singleton]
  exact ⟨fun label hlabel => (hfront label hlabel).not_mem (by decide), hlast.not_mem (by decide)⟩

theorem isAddress_iff : isAddress cs = true ↔ IsAddress cs := by
  constructor
  · intro h
    unfold isAddress at h
    split at h
    · next name domain hcut =>
      simp only [Bool.and_eq_true, Bool.not_eq_true', List.isEmpty_eq_false_iff, isDomain_iff] at h
      obtain ⟨⟨hne, hall⟩, hlabels⟩ := h
      refine ⟨name, pieces '.' domain, ?_, isRun_one_iff.2 ⟨hne, hall⟩, hlabels⟩
      rw [intercalate_pieces, (cutOnce_eq_some hcut).1]
    · cases h
  · -- the name has no `@` and the labels have no point, so the text is cut where it was joined
    rintro ⟨name, labels, rfl, hname, hlabels⟩
    have hne : labels ≠ [] := by
      rintro rfl
      simpa using hlabels.two_le
    have hpieces := pieces_intercalate hne hlabels.no_point
    obtain ⟨hname_ne, hall⟩ := isRun_one_iff.1 hname
    rw [isAddress, cutOnce_append (hname.not_mem (by decide))]
    simp only [Bool.and_eq_true, Bool.not_eq_true', List.isEmpty_eq_false_iff, isDomain_iff,
      hpieces]
    exact ⟨⟨hname_ne, hall⟩, hlabels⟩

/-- Digits are for the labels before the last. -/
example : isAddress "ada.l+x@mail-1.b2.org".toList = true ∧
    isAddress "ada@mail.org.b2".toList = false := by
  decide +kernel

/-! ## The regular expression -/

namespace Address

open scoped Computability

/-- A character of a range. -/
def range (lo hi : Char) : Language Char := {w | ∃ c, w = [c] ∧ lo ≤ c ∧ c ≤ hi}

/-- The character itself. -/
def only (c : Char) : Language Char := {[c]}

def atLeast (n : Nat) (l : Language Char) : Language Char := l ^ n * l∗

/-- `[A-Za-z]` -/
def letter : Language Char := range 'A' 'Z' + range 'a' 'z'

/-- `[A-Za-z0-9._%+-]` -/
def localChar : Language Char :=
  letter + range '0' '9' + only '.' + only '_' + only '%' + only '+' + only '-'

/-- `[A-Za-z0-9-]` -/
def labelChar : Language Char := letter + range '0' '9' + only '-'

def pattern : Language Char :=
  atLeast 1 localChar * only '@' * atLeast 1 labelChar * (only '.' * atLeast 1 labelChar)∗ *
    only '.' * atLeast 2 letter

/-- The texts of `l` are the characters of the class `p`. -/
def IsClass (l : Language Char) (p : Char → Bool) : Prop := ∀ w, w ∈ l ↔ ∃ c, w = [c] ∧ p c = true

variable {l m : Language Char} {w : List Char}

theorem isClass_range (lo hi : Char) : IsClass (range lo hi) fun c => lo ≤ c && c ≤ hi := by
  intro w
  simp only [Bool.and_eq_true, decide_eq_true_eq]
  exact Iff.rfl

theorem isClass_only (d : Char) : IsClass (only d) fun c => c == d := by
  intro w
  simp only [beq_iff_eq]
  constructor
  · rintro rfl
    exact ⟨d, rfl, rfl⟩
  · rintro ⟨c, rfl, rfl⟩
    rfl

theorem IsClass.add (hl : IsClass l p) (hm : IsClass m q) :
    IsClass (l + m) fun c => p c || q c := by
  intro w
  rw [Language.mem_add, hl, hm, ← exists_or]
  simp only [Bool.or_eq_true, and_or_left]

theorem IsClass.congr (hl : IsClass l p) (h : ∀ c, p c = q c) : IsClass l q := by
  obtain rfl : p = q := funext h
  exact hl

theorem isClass_letter : IsClass letter isLetter :=
  ((isClass_range 'A' 'Z').add (isClass_range 'a' 'z')).congr fun _ => Bool.or_comm _ _

theorem isClass_localChar : IsClass localChar isLocalChar := by
  refine ((((((isClass_letter.add (isClass_range '0' '9')).add (isClass_only '.')).add
    (isClass_only '_')).add (isClass_only '%')).add (isClass_only '+')).add
    (isClass_only '-')).congr ?_
  intro c
  rw [Bool.eq_iff_iff]
  simp [isLocalChar, isDigit, or_assoc]

theorem isClass_labelChar : IsClass labelChar isLabelChar :=
  (isClass_letter.add (isClass_range '0' '9')).add (isClass_only '-')

/-- A repeated class gives the runs of its characters. -/
theorem IsClass.mem_kstar (hl : IsClass l p) : w ∈ l∗ ↔ ∀ c ∈ w, p c = true := by
  rw [Language.mem_kstar]
  constructor
  · rintro ⟨ws, rfl, hws⟩ c hc
    obtain ⟨v, hv, hcv⟩ := List.mem_flatten.1 hc
    obtain ⟨d, rfl, hd⟩ := (hl v).1 (hws v hv)
    rwa [List.mem_singleton.1 hcv]
  · intro h
    refine ⟨w.map fun c => [c], (List.flatMap_singleton' w).symm, ?_⟩
    rw [List.forall_mem_map]
    exact fun c hc => (hl [c]).2 ⟨c, rfl, h c hc⟩

theorem IsClass.mem_atLeast (hl : IsClass l p) : w ∈ atLeast n l ↔ IsRun n p w := by
  induction n generalizing w with
  | zero =>
    rw [atLeast, pow_zero, one_mul, hl.mem_kstar]
    exact ⟨fun h => ⟨Nat.zero_le _, h⟩, IsRun.chars⟩
  | succ n ih =>
    rw [atLeast, pow_succ', mul_assoc, ← atLeast, Language.mem_mul]
    constructor
    · rintro ⟨u, hu, v, hv, rfl⟩
      obtain ⟨c, rfl, hc⟩ := (hl u).1 hu
      have hrun := ih.1 hv
      exact ⟨Nat.succ_le_succ hrun.length, List.forall_mem_cons.2 ⟨hc, hrun.chars⟩⟩
    · intro h
      cases w with
      | nil => exact absurd h.length (Nat.not_succ_le_zero n)
      | cons c w =>
        obtain ⟨hc, hw⟩ := List.forall_mem_cons.1 h.chars
        exact ⟨[c], (hl [c]).2 ⟨c, rfl, hc⟩, w, ih.2 ⟨Nat.le_of_succ_le_succ h.length, hw⟩, rfl⟩

theorem mem_only_mul : w ∈ only c * m ↔ ∃ v ∈ m, w = c :: v := by
  rw [Language.mem_mul]
  constructor
  · rintro ⟨_, rfl, v, hv, rfl⟩
    exact ⟨v, hv, rfl⟩
  · rintro ⟨v, hv, rfl⟩
    exact ⟨[c], rfl, v, hv, rfl⟩

theorem mem_kstar_only_mul : w ∈ (only c * m)∗ ↔
    ∃ vs : List (List Char), (∀ v ∈ vs, v ∈ m) ∧ w = vs.flatMap (c :: ·) := by
  rw [Language.mem_kstar]
  constructor
  · rintro ⟨ws, rfl, hws⟩
    induction ws with
    | nil => exact ⟨[], nofun, rfl⟩
    | cons w ws ih =>
      rw [List.forall_mem_cons] at hws
      obtain ⟨v, hv, rfl⟩ := mem_only_mul.1 hws.1
      obtain ⟨vs, hvs, hflat⟩ := ih hws.2
      exact ⟨v :: vs, List.forall_mem_cons.2 ⟨hv, hvs⟩, congrArg ((c :: v) ++ ·) hflat⟩
  · rintro ⟨vs, hvs, rfl⟩
    refine ⟨vs.map (c :: ·), rfl, ?_⟩
    rw [List.forall_mem_map]
    exact fun v hv => mem_only_mul.2 ⟨v, hvs v hv, rfl⟩

/-- **The texts that the pattern matches are the addresses.** -/
theorem mem_pattern_iff : cs ∈ pattern ↔ IsAddress cs := by
  have hlabel : ∀ v, v ∈ atLeast 1 labelChar ↔ IsRun 1 isLabelChar v :=
    fun _ => isClass_labelChar.mem_atLeast
  simp only [pattern, mul_assoc]
  constructor
  · intro h
    obtain ⟨name, hname, _, hdomain, rfl⟩ := Language.mem_mul.1 h
    obtain ⟨_, hlabels, rfl⟩ := mem_only_mul.1 hdomain
    obtain ⟨label, hfirst, _, hrest, rfl⟩ := Language.mem_mul.1 hlabels
    obtain ⟨_, hstar, _, hend, rfl⟩ := Language.mem_mul.1 hrest
    obtain ⟨middle, hmiddle, rfl⟩ := mem_kstar_only_mul.1 hstar
    obtain ⟨last, hlast, rfl⟩ := mem_only_mul.1 hend
    refine ⟨name, label :: middle ++ [last], ?_, isClass_localChar.mem_atLeast.1 hname,
      label :: middle, last, rfl, List.cons_ne_nil label middle, ?_,
      isClass_letter.mem_atLeast.1 hlast⟩
    · rw [List.cons_append, intercalate_cons, List.flatMap_append, List.flatMap_singleton]
    · exact List.forall_mem_cons.2
        ⟨(hlabel label).1 hfirst, fun v hv => (hlabel v).1 (hmiddle v hv)⟩
  · rintro ⟨name, _, rfl, hname, _ | ⟨label, middle⟩, last, rfl, hne, hfront, hlast⟩
    · exact absurd rfl hne
    · rw [List.forall_mem_cons] at hfront
      rw [List.cons_append, intercalate_cons, List.flatMap_append, List.flatMap_singleton]
      refine Language.mem_mul.2 ⟨name, isClass_localChar.mem_atLeast.2 hname, _,
        mem_only_mul.2 ⟨_, ?_, rfl⟩, rfl⟩
      refine Language.mem_mul.2 ⟨label, (hlabel label).2 hfront.1, _, ?_, rfl⟩
      refine Language.mem_mul.2 ⟨_, mem_kstar_only_mul.2 ⟨middle, ?_, rfl⟩, _,
        mem_only_mul.2 ⟨last, isClass_letter.mem_atLeast.2 hlast, rfl⟩, rfl⟩
      exact fun v hv => (hlabel v).2 (hfront.2 v hv)

end Address

/-! ## The check -/

/-- **The e-mail modifier passes a text exactly when the trimmed text is empty or an address**, that
is a text which its pattern matches; every other text fails. -/
theorem check_email_text (s : CheckSetting) (text : String) :
    let cs := trim text.toList
    (check .email s (.text text) = .ok .pass ↔ cs = [] ∨ IsAddress cs) ∧
      (check .email s (.text text) = .ok (.fail .invalidEmail "not a valid email address") ↔
        ¬ (cs = [] ∨ IsAddress cs)) ∧
      (IsAddress cs ↔ cs ∈ Address.pattern) := by
  intro cs
  have hcheck : check .email s (.text text) = .ok (if cs.isEmpty || isAddress cs then .pass
      else .fail .invalidEmail "not a valid email address") := rfl
  have hpass : (cs.isEmpty || isAddress cs) = true ↔ cs = [] ∨ IsAddress cs := by
    rw [Bool.or_eq_true, List.isEmpty_iff, isAddress_iff]
  rw [hcheck]
  by_cases h : cs = [] ∨ IsAddress cs
  · rw [if_pos (hpass.2 h)]
    exact ⟨iff_of_true rfl h, iff_of_false (by simp) (not_not_intro h),
      Address.mem_pattern_iff.symm⟩
  · rw [if_neg (mt hpass.1 h)]
    exact ⟨iff_of_false (by simp) h, iff_of_true rfl h, Address.mem_pattern_iff.symm⟩

end Rulebook.Modifier
