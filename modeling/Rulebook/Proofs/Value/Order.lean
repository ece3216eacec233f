import Mathlib.Order.Defs.LinearOrder
import Rulebook.Value.Order

/-!
# Loose comparison is oriented

Of two values, whatever their kinds, one is less than the other just when the other is greater:

    compareLoose ci a b = (compareLoose ci b a).swap
    compareLoose ci a a = .eq

Which comparison is made is the same for both orders, and each of them is oriented.  Transitive the
comparison is not, since different pairs are compared differently.
-/

namespace Rulebook

/-! ## Comparisons of one kind -/

instance : Std.OrientedCmp Date.order where
  eq_swap {d e} := by
    unfold Date.order
    rw [Ordering.swap_then, Ordering.swap_then, ← Std.OrientedCmp.eq_swap,
      ← Std.OrientedCmp.eq_swap, ← Std.OrientedCmp.eq_swap]

instance : Std.OrientedCmp Decimal.order where
  eq_swap {x y} := by
    unfold Decimal.order
    exact Std.OrientedCmp.eq_swap

namespace Value

variable {ci : Bool} {a b : Value}

instance : Std.OrientedCmp (compareText ci) where
  eq_swap {s t} := by
    unfold compareText
    split <;> exact Std.OrientedCmp.eq_swap

/-! ## Across kinds -/

/-- Both orders of two values are compared by the same thing. -/
theorem compareTyped?_swap (a b : Value) :
    compareTyped? a b = (compareTyped? b a).map Ordering.swap := by
  unfold compareTyped?
  cases a.asInteger? <;> cases b.asInteger?
  case some.some => exact congrArg some Std.OrientedCmp.eq_swap
  -- one side is no whole number, and what follows is the same whichever it is
  all_goals
    cases a.asDecimal? <;> cases b.asDecimal?
    case some.some => exact congrArg some Std.OrientedCmp.eq_swap
    all_goals
      cases a.asDate? <;> cases b.asDate?
      case some.some => exact congrArg some Std.OrientedCmp.eq_swap
      all_goals
        dsimp only
        split
        · exact congrArg some Std.OrientedCmp.eq_swap
        · next hnot =>
          split
          · exact absurd rfl (hnot _ _ rfl)
          · rfl

instance : Std.OrientedCmp (compareLoose ci) where
  eq_swap {a b} := by
    unfold compareLoose
    rw [Bool.and_comm, compareTyped?_swap a b]
    split
    · rfl
    · cases compareTyped? b a with
      | none =>
        show compareText ci a.toText b.toText = (compareText ci b.toText a.toText).swap
        exact Std.OrientedCmp.eq_swap
      | some o => rfl

end Value

end Rulebook
