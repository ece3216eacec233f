/-!
# Stable sorting

`sortOn key xs` has the elements of `xs` in increasing order of `key`; elements with equal keys keep
their order.
-/

namespace Rulebook

variable {α : Type}

/-- Puts `x` before the first element whose key is not less. -/
def insertOn (key : α → Int) (x : α) : List α → List α
  | [] => [x]
  | y :: ys => if key x ≤ key y then x :: y :: ys else y :: insertOn key x ys

def sortOn (key : α → Int) : List α → List α
  | [] => []
  | x :: xs => insertOn key x (sortOn key xs)

/-! ## Lemmas -/

theorem insertOn_perm (key : α → Int) (x : α) (ys : List α) :
    (insertOn key x ys).Perm (x :: ys) := by
  induction ys with
  | nil => exact List.Perm.refl _
  | cons y ys ih =>
    unfold insertOn
    split
    · exact List.Perm.refl _
    · exact (ih.cons y).trans (List.Perm.swap x y ys)

theorem sortOn_perm (key : α → Int) (xs : List α) : (sortOn key xs).Perm xs := by
  induction xs with
  | nil => exact List.Perm.refl _
  | cons x xs ih => exact (insertOn_perm key x _).trans (ih.cons x)

theorem insertOn_pairwise (key : α → Int) (x : α) {ys : List α}
    (h : ys.Pairwise fun a b => key a ≤ key b) :
    (insertOn key x ys).Pairwise fun a b => key a ≤ key b := by
  induction ys with
  | nil => simp [insertOn]
  | cons y ys ih =>
    have hy := List.pairwise_cons.1 h
    unfold insertOn
    split
    · next hxy =>
      refine List.pairwise_cons.2 ⟨fun z hz => ?_, h⟩
      rcases List.mem_cons.1 hz with rfl | hz
      · exact hxy
      · exact Int.le_trans hxy (hy.1 z hz)
    · next hxy =>
      refine List.pairwise_cons.2 ⟨fun z hz => ?_, ih hy.2⟩
      rcases List.mem_cons.1 ((insertOn_perm key x ys).mem_iff.1 hz) with rfl | hz
      · omega
      · exact hy.1 z hz

/-- Sorting what was made of elements is sorting the elements by what their keys become. -/
theorem sortOn_map {β : Type} (key : β → Int) (f : α → β) (xs : List α) :
    sortOn key (xs.map f) = (sortOn (fun x => key (f x)) xs).map f := by
  have insert_map : ∀ (x : α) (ys : List α),
      insertOn key (f x) (ys.map f) = (insertOn (fun x => key (f x)) x ys).map f := by
    intro x ys
    induction ys with
    | nil => rfl
    | cons y ys ih =>
      rw [List.map_cons, insertOn, insertOn]
      split
      · rfl
      · rw [ih, List.map_cons]
  induction xs with
  | nil => rfl
  | cons x xs ih => rw [List.map_cons, sortOn, ih, insert_map, sortOn]

/-- The result is in order. -/
theorem sortOn_pairwise (key : α → Int) (xs : List α) :
    (sortOn key xs).Pairwise fun a b => key a ≤ key b := by
  induction xs with
  | nil => exact List.Pairwise.nil
  | cons x xs ih => exact insertOn_pairwise key x ih

/-- Elements with one key stand in the order they had. -/
theorem filter_sortOn (key : α → Int) (k : Int) (xs : List α) :
    (sortOn key xs).filter (key · = k) = xs.filter (key · = k) := by
  have insert_filter : ∀ (x : α) (ys : List α),
      (insertOn key x ys).filter (key · = k) = (x :: ys).filter (key · = k) := by
    intro x ys
    induction ys with
    | nil => rfl
    | cons y ys ih =>
      unfold insertOn
      split
      · rfl
      · next h =>
        rw [List.filter_cons, ih]
        by_cases hy : key y = k <;> by_cases hx : key x = k <;> simp [hx, hy]
        omega
  induction xs with
  | nil => rfl
  | cons x xs ih => rw [sortOn, insert_filter, List.filter_cons, List.filter_cons, ih]

theorem le_of_mem_sorted {key : α → Int} {x y : α} {ys : List α}
    (hys : (y :: ys).Pairwise fun a b => key a ≤ key b) (hx : x ∈ y :: ys) : key y ≤ key x := by
  rcases List.mem_cons.1 hx with rfl | hx
  · exact Int.le_refl _
  · exact (List.pairwise_cons.1 hys).1 x hx

theorem mem_iff_of_filter_eq {key : α → Int} {xs ys : List α}
    (h : ∀ k, xs.filter (key · = k) = ys.filter (key · = k)) (z : α) : z ∈ xs ↔ z ∈ ys := by
  have hz : z ∈ xs.filter (key · = key z) ↔ z ∈ ys.filter (key · = key z) := by rw [h]
  simpa [List.mem_filter] using hz

/-- A list in order is known from its elements with each key. -/
theorem eq_of_filter_eq {key : α → Int} {xs ys : List α}
    (hxs : xs.Pairwise fun a b => key a ≤ key b) (hys : ys.Pairwise fun a b => key a ≤ key b)
    (h : ∀ k, xs.filter (key · = k) = ys.filter (key · = k)) : xs = ys := by
  have hmem := mem_iff_of_filter_eq h
  induction xs generalizing ys with
  | nil =>
    cases ys with
    | nil => rfl
    | cons y ys => exact absurd ((hmem y).2 (List.mem_cons_self ..)) List.not_mem_nil
  | cons x xs ih =>
    cases ys with
    | nil => exact absurd ((hmem x).1 (List.mem_cons_self ..)) List.not_mem_nil
    | cons y ys =>
      -- neither head comes before the other, so they are the first with one key
      have hkey : key y = key x := Int.le_antisymm
        (le_of_mem_sorted hys ((hmem x).1 (List.mem_cons_self ..)))
        (le_of_mem_sorted hxs ((hmem y).2 (List.mem_cons_self ..)))
      obtain rfl : x = y := by
        have hfirst := h (key x)
        rw [List.filter_cons_of_pos (by simp), List.filter_cons_of_pos (by simpa using hkey)]
          at hfirst
        exact (List.cons.inj hfirst).1
      have hrest : ∀ k, xs.filter (key · = k) = ys.filter (key · = k) := by
        intro k
        have hk := h k
        by_cases hx : key x = k
        · rw [List.filter_cons_of_pos (by simpa using hx),
            List.filter_cons_of_pos (by simpa using hx)] at hk
          exact (List.cons.inj hk).2
        · rwa [List.filter_cons_of_neg (by simpa using hx),
            List.filter_cons_of_neg (by simpa using hx)] at hk
      have hsorted := List.pairwise_cons.1 hxs
      have hsorted' := List.pairwise_cons.1 hys
      rw [ih hsorted.2 hsorted'.2 hrest (mem_iff_of_filter_eq hrest)]

/-- Sorting depends only on how the elements with each key stand to one another. -/
theorem sortOn_eq_of_filter_eq (key : α → Int) {xs ys : List α}
    (h : ∀ k, xs.filter (key · = k) = ys.filter (key · = k)) : sortOn key xs = sortOn key ys := by
  refine eq_of_filter_eq (sortOn_pairwise key xs) (sortOn_pairwise key ys) fun k => ?_
  rw [filter_sortOn, filter_sortOn, h k]

end Rulebook
