import Rulebook.Rule.Modifier

/-!
# Sets of active modifiers

While the modifiers of a bracket are read, the flag of each is added to a set, and a code that the
set contains already is refused.

    s.IsUnion ms      the bits of `s` are those of the flags of `ms`, and no others

There is one such set (`IsUnion.unique`).  It does not depend on the order of the modifiers
(`IsUnion.perm`), and since each code has a bit of its own, it contains exactly the codes that occur
(`IsUnion.contains_iff`).
-/

namespace Rulebook

namespace ModifierCode

theorem exists_bit (c : ModifierCode) : ∃ i < 16, c.flag.bits.getLsbD i = true := by
  cases c <;> decide

theorem flag_and_flag (c d : ModifierCode) :
    c.flag.bits &&& d.flag.bits = if c = d then d.flag.bits else 0 := by
  cases c <;> cases d <;> rfl

/-- Each code has a bit of its own. -/
theorem eq_of_bit {c d : ModifierCode} {i : Nat} (hc : c.flag.bits.getLsbD i = true)
    (hd : d.flag.bits.getLsbD i = true) : c = d := by
  have hboth : (c.flag.bits &&& d.flag.bits).getLsbD i = true := by
    rw [BitVec.getLsbD_and, hc, hd]
    rfl
  rw [flag_and_flag] at hboth
  split at hboth
  · next he => exact he
  · rw [BitVec.ofNat_eq_ofNat, BitVec.getLsbD_zero] at hboth
    cases hboth

end ModifierCode

namespace ModifierFlags

variable {s t : ModifierFlags} {ms ns : List Modifier} {c : ModifierCode}

/-- The union of the flags of these modifiers, and no more. -/
def IsUnion (s : ModifierFlags) (ms : List Modifier) : Prop :=
  ∀ i, s.bits.getLsbD i = ms.any fun m => m.flag.bits.getLsbD i

theorem isUnion_none : none.IsUnion [] := fun _ => BitVec.getLsbD_zero

theorem IsUnion.cons (h : s.IsUnion ms) (m : Modifier) : (s.union m.flag).IsUnion (m :: ms) := by
  intro i
  rw [union, BitVec.getLsbD_or, h i, List.any_cons, Bool.or_comm]

theorem IsUnion.perm (h : s.IsUnion ms) (hperm : ms.Perm ns) : s.IsUnion ns := by
  intro i
  rw [h i, hperm.any_eq]

theorem IsUnion.unique (hs : s.IsUnion ms) (ht : t.IsUnion ms) : s = t := by
  cases s
  cases t
  exact congrArg mk (BitVec.eq_of_getLsbD_eq fun i _ => (hs i).trans (ht i).symm)

theorem IsUnion.contains_iff (h : s.IsUnion ms) :
    s.contains c.flag = true ↔ ∃ m ∈ ms, m.code = c := by
  rw [contains, beq_iff_eq]
  constructor
  · intro hall
    obtain ⟨i, -, hi⟩ := c.exists_bit
    have hset : s.bits.getLsbD i = true := by
      rw [← hall, BitVec.getLsbD_and, Bool.and_eq_true] at hi
      exact hi.1
    rw [h i, List.any_eq_true] at hset
    obtain ⟨m, hm, hbit⟩ := hset
    exact ⟨m, hm, ModifierCode.eq_of_bit hbit hi⟩
  · rintro ⟨m, hm, rfl⟩
    refine BitVec.eq_of_getLsbD_eq fun i _ => ?_
    rw [BitVec.getLsbD_and]
    cases hbit : m.code.flag.bits.getLsbD i with
    | false => exact Bool.and_false _
    | true =>
      rw [Bool.and_true, h i]
      exact List.any_eq_true.2 ⟨m, hm, hbit⟩

end ModifierFlags

end Rulebook
