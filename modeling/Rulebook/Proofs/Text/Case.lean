import Rulebook.Text.Case
import Mathlib

/-!
# Letter case is settled

A text in upper case is in upper case again, and so is every part of it; the same holds for lower
case:

    upper (upper s) = upper s
    upper s = s  →  upper (first k characters of s) = first k characters of s

Both come of the tables: no code point that a mapping gives is one that the mapping moves
(`settled_upper`, `settled_lower`).  For that, sets of code points are taken as numbers, one bit for
each (`mask`).
-/

namespace Rulebook.Text

/-! ## Sets of code points -/

/-- The number with these bits set. -/
def mask (ns : List Nat) : Nat := ns.foldr (fun n acc => 1 <<< n ||| acc) 0

theorem testBit_mask {n : Nat} {ns : List Nat} (h : n ∈ ns) : (mask ns).testBit n = true := by
  induction ns with
  | nil => cases h
  | cons m ns ih =>
    show (1 <<< m ||| mask ns).testBit n = true
    rw [Nat.testBit_or, Bool.or_eq_true]
    rcases List.mem_cons.1 h with rfl | h
    · exact .inl (by rw [Nat.one_shiftLeft, Nat.testBit_two_pow_self])
    · exact .inr (ih h)

theorem not_mem_of_mask {n : Nat} {ms ns : List Nat} (h : mask ms &&& mask ns = 0) (hn : n ∈ ns) :
    n ∉ ms := by
  intro hm
  have hbit := congrArg (·.testBit n) h
  simp only [Nat.testBit_and, Nat.zero_testBit, testBit_mask hm, testBit_mask hn] at hbit
  cases hbit

/-! ## Tables -/

section
variable {runs : List CaseRun} {expansions : List (Nat × List Nat)} {c d : Char} {n : Nat}

/-- The code points that a run moves. -/
def CaseRun.points (r : CaseRun) : List Nat :=
  (List.range ((r.last - r.first) / r.step + 1)).map (r.first + · * r.step)

/-- The code points that the tables move. -/
def movedPoints (runs : List CaseRun) (expansions : List (Nat × List Nat)) : List Nat :=
  expansions.map (·.1) ++ runs.flatMap CaseRun.points

/-- The code points that others are moved to, and zero. -/
def imagePoints (runs : List CaseRun) (expansions : List (Nat × List Nat)) : List Nat :=
  0 :: (expansions.flatMap (·.2) ++
    runs.flatMap fun r => r.points.map fun (n : Nat) => ((n : Int) + r.offset).toNat)

theorem CaseRun.mem_points {r : CaseRun} (hfirst : r.first ≤ n) (hlast : n ≤ r.last)
    (hstep : (n - r.first) % r.step = 0) : n ∈ r.points := by
  refine List.mem_map.2 ⟨(n - r.first) / r.step, ?_, ?_⟩
  · rw [List.mem_range]
    exact Nat.lt_succ_of_le (Nat.div_le_div_right (by omega))
  · have hsplit := Nat.div_add_mod' (n - r.first) r.step
    omega

/-- What is moved is moved by a run that has it. -/
theorem shiftOf_cases (n : Nat) : ∀ runs : List CaseRun, shiftOf n runs = 0 ∨
    ∃ r ∈ runs, n ∈ r.points ∧ shiftOf n runs = r.offset
  | [] => .inl rfl
  | r :: rs => by
    unfold shiftOf
    split
    · exact .inl rfl
    split
    · split
      · next hfirst hlast hstep =>
        exact .inr ⟨r, List.mem_cons_self, r.mem_points (by omega) hlast hstep, rfl⟩
      · exact .inl rfl
    · obtain h | ⟨r', hr', hn, hoffset⟩ := shiftOf_cases n rs
      · exact .inl h
      · exact .inr ⟨r', List.mem_cons_of_mem _ hr', hn, hoffset⟩

theorem lookup_mem {ns : List Nat} (h : expansions.lookup n = some ns) :
    (n, ns) ∈ expansions := by
  induction expansions with
  | nil => cases h
  | cons p ps ih =>
    rw [List.lookup_cons] at h
    split at h
    · next heq =>
      cases h
      rw [beq_iff_eq.1 heq]
      exact List.mem_cons_self
    · exact List.mem_cons_of_mem _ (ih h)

/-- What is not moved is kept. -/
theorem mapChar_of_not_moved (h : c.toNat ∉ movedPoints runs expansions) :
    mapChar runs expansions c = [c] := by
  unfold movedPoints at h
  rw [List.mem_append, not_or] at h
  have hlookup : expansions.lookup c.toNat = none := by
    rw [← Option.not_isSome_iff_eq_none, Option.isSome_iff_exists]
    rintro ⟨ns, hns⟩
    exact h.1 (List.mem_map_of_mem (lookup_mem hns))
  have hshift : shiftOf c.toNat runs = 0 := by
    obtain h0 | ⟨r, hr, hn, -⟩ := shiftOf_cases c.toNat runs
    · exact h0
    · exact absurd (List.mem_flatMap.2 ⟨r, hr, hn⟩) h.2
  rw [mapChar, hlookup, hshift]
  simp

theorem toNat_ofNat_cases (n : Nat) : (Char.ofNat n).toNat = n ∨ (Char.ofNat n).toNat = 0 := by
  rw [Char.toNat_ofNat]
  split
  · exact .inl rfl
  · exact .inr rfl

/-- What a character is moved to is one of the images, or the character itself. -/
theorem toNat_mem_of_mem_mapChar (h : d ∈ mapChar runs expansions c) :
    d.toNat ∈ imagePoints runs expansions ∨ mapChar runs expansions c = [c] := by
  have hzero : (0 : Nat) ∈ imagePoints runs expansions := List.mem_cons_self
  unfold mapChar at h ⊢
  split at h
  · next ns hns =>
    obtain ⟨n, hn, rfl⟩ := List.mem_map.1 h
    refine .inl ?_
    rcases toNat_ofNat_cases n with heq | heq <;> rw [heq]
    · exact List.mem_cons_of_mem _ (List.mem_append_left _
        (List.mem_flatMap.2 ⟨_, lookup_mem hns, hn⟩))
    · exact hzero
  · obtain h0 | ⟨r, hr, hn, hoffset⟩ := shiftOf_cases c.toNat runs
    · right
      rw [h0]
      simp
    · refine .inl ?_
      rw [List.mem_singleton] at h
      subst h
      rw [hoffset]
      rcases toNat_ofNat_cases (c.toNat + r.offset).toNat with heq | heq <;> rw [heq]
      · exact List.mem_cons_of_mem _ (List.mem_append_right _
          (List.mem_flatMap.2 ⟨r, hr, List.mem_map_of_mem hn⟩))
      · exact hzero

/-- **What a table gives, it keeps**, when it moves none of its images. -/
theorem mapChar_of_mem (hsettled : mask (movedPoints runs expansions) &&&
    mask (imagePoints runs expansions) = 0) (h : d ∈ mapChar runs expansions c) :
    d.toNat ∉ movedPoints runs expansions ∨ d = c ∧ mapChar runs expansions c = [c] := by
  obtain himage | hkept := toNat_mem_of_mem_mapChar h
  · exact .inl (not_mem_of_mask hsettled himage)
  · rw [hkept, List.mem_singleton] at h
    exact .inr ⟨h, hkept⟩

end

theorem settled_upper : mask (movedPoints upperRuns upperExpansions) &&&
    mask (imagePoints upperRuns upperExpansions) = 0 := by
  decide +kernel

theorem settled_lower : mask (movedPoints lowerRuns lowerExpansions) &&&
    mask (imagePoints lowerRuns lowerExpansions) = 0 := by
  decide +kernel

/-! ## Upper case -/

/-- A character in upper case. -/
def IsUpper (c : Char) : Prop := upperChar c = [c]

theorem isUpper_of_mem {c d : Char} (h : d ∈ upperChar c) : IsUpper d := by
  obtain hmoved | ⟨rfl, hkept⟩ := mapChar_of_mem settled_upper h
  · exact mapChar_of_not_moved hmoved
  · exact hkept

theorem flatMap_upperChar {cs : List Char} (h : ∀ c ∈ cs, IsUpper c) :
    cs.flatMap upperChar = cs := by
  induction cs with
  | nil => rfl
  | cons c cs ih =>
    rw [List.flatMap_cons, h c List.mem_cons_self, ih fun d hd => h d (List.mem_cons_of_mem _ hd)]
    rfl

theorem mem_flatMap_upperChar {cs : List Char} {d : Char} (h : d ∈ cs.flatMap upperChar) :
    IsUpper d := by
  obtain ⟨c, -, hd⟩ := List.mem_flatMap.1 h
  exact isUpper_of_mem hd

theorem upper_eq_iff {s : String} : upper s = s ↔ ∀ c ∈ s.toList, IsUpper c := by
  rw [upper, ← String.toList_inj, String.toList_ofList]
  constructor
  · intro h c hc
    rw [← h] at hc
    exact mem_flatMap_upperChar hc
  · exact flatMap_upperChar

/-- **Upper case is reached at once.** -/
theorem upper_upper (s : String) : upper (upper s) = upper s := by
  rw [upper_eq_iff]
  intro d hd
  rw [upper, String.toList_ofList] at hd
  exact mem_flatMap_upperChar hd

theorem upper_take {s : String} (h : upper s = s) (k : Nat) :
    upper (String.ofList (s.toList.take k)) = String.ofList (s.toList.take k) := by
  rw [upper_eq_iff] at h ⊢
  rw [String.toList_ofList]
  exact fun c hc => h c (List.mem_of_mem_take hc)

/-! ## Lower case -/

/-- A character in lower case, wherever it stands. -/
def IsLower (c : Char) : Prop := c ≠ 'Σ' ∧ lowerChar c = [c]

theorem isLower_of_not_moved {c : Char} (h : c.toNat ∉ movedPoints lowerRuns lowerExpansions) :
    IsLower c := by
  refine ⟨?_, mapChar_of_not_moved h⟩
  rintro rfl
  exact h (by decide +kernel)

theorem isLower_of_mem {c d : Char} (hc : c ≠ 'Σ') (h : d ∈ lowerChar c) : IsLower d := by
  obtain hmoved | ⟨rfl, hkept⟩ := mapChar_of_mem settled_lower h
  · exact isLower_of_not_moved hmoved
  · exact ⟨hc, hkept⟩

/-- Both forms that a capital sigma becomes. -/
theorem isLower_sigma : IsLower 'σ' ∧ IsLower 'ς' :=
  ⟨⟨by decide, by decide +kernel⟩, ⟨by decide, by decide +kernel⟩⟩

/-- What a character becomes after `before` and before `cs`. -/
def lowerHere (before : List Char) (c : Char) (cs : List Char) : List Char :=
  if c = 'Σ' then (if meetsCased before && !meetsCased cs then ['ς'] else ['σ']) else lowerChar c

theorem lowerAfter_cons (before : List Char) (c : Char) (cs : List Char) :
    lowerAfter before (c :: cs) = lowerHere before c cs ++ lowerAfter (c :: before) cs := rfl

theorem isLower_of_mem_lowerHere {before cs : List Char} {c d : Char}
    (h : d ∈ lowerHere before c cs) : IsLower d := by
  unfold lowerHere at h
  split at h
  · split at h <;> rw [List.mem_singleton.1 h]
    · exact isLower_sigma.2
    · exact isLower_sigma.1
  · next hc => exact isLower_of_mem hc h

theorem lowerAfter_of_isLower {before cs : List Char} (h : ∀ c ∈ cs, IsLower c) :
    lowerAfter before cs = cs := by
  induction cs generalizing before with
  | nil => rfl
  | cons c cs ih =>
    obtain ⟨hc, hlower⟩ := h c List.mem_cons_self
    rw [lowerAfter_cons, lowerHere, if_neg hc, hlower,
      ih fun d hd => h d (List.mem_cons_of_mem _ hd)]
    rfl

theorem mem_lowerAfter {before cs : List Char} {d : Char} (h : d ∈ lowerAfter before cs) :
    IsLower d := by
  induction cs generalizing before with
  | nil => cases h
  | cons c cs ih =>
    rw [lowerAfter_cons, List.mem_append] at h
    exact h.elim isLower_of_mem_lowerHere ih

theorem lower_eq_iff {s : String} : lower s = s ↔ ∀ c ∈ s.toList, IsLower c := by
  rw [lower, ← String.toList_inj, String.toList_ofList]
  constructor
  · intro h c hc
    rw [← h] at hc
    exact mem_lowerAfter hc
  · exact lowerAfter_of_isLower

/-- **Lower case is reached at once.** -/
theorem lower_lower (s : String) : lower (lower s) = lower s := by
  rw [lower_eq_iff]
  intro d hd
  rw [lower, String.toList_ofList] at hd
  exact mem_lowerAfter hd

theorem lower_take {s : String} (h : lower s = s) (k : Nat) :
    lower (String.ofList (s.toList.take k)) = String.ofList (s.toList.take k) := by
  rw [lower_eq_iff] at h ⊢
  rw [String.toList_ofList]
  exact fun c hc => h c (List.mem_of_mem_take hc)

end Rulebook.Text
