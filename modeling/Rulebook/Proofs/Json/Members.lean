import Rulebook.Json.Basic

/-!
# Adding members

Of two members under one key the later one stays, and under different keys they can be added in
either order:

    (m.insert k v).insert k w = m.insert k w
    (m.insert j v).insert k w = (m.insert k w).insert j v        for j ≠ k
-/

namespace Rulebook.Members

variable {α : Type} {j k : String}

theorem insert_cons_self (k : String) (v w : α) (m : Members α) :
    insert k v ((k, w) :: m) = (k, v) :: m := by
  rw [insert, if_pos rfl]

theorem insert_cons_of_lt (h : j < k) (v w : α) (m : Members α) :
    insert j v ((k, w) :: m) = (j, v) :: (k, w) :: m := by
  rw [insert, if_neg (String.ne_of_lt h), if_pos h]

theorem insert_cons_of_gt (h : k < j) (v w : α) (m : Members α) :
    insert j v ((k, w) :: m) = (k, w) :: insert j v m := by
  rw [insert, if_neg (String.ne_of_lt h).symm, if_neg (String.lt_asymm h)]

theorem insert_insert_self (k : String) (v w : α) (m : Members α) :
    (m.insert k v).insert k w = m.insert k w := by
  induction m with
  | nil => exact insert_cons_self k w v []
  | cons p rest ih =>
    obtain ⟨k', v'⟩ := p
    rcases Std.lt_trichotomy k k' with h | rfl | h
    · rw [insert_cons_of_lt h, insert_cons_of_lt h, insert_cons_self]
    · rw [insert_cons_self, insert_cons_self, insert_cons_self]
    · rw [insert_cons_of_gt h, insert_cons_of_gt h, insert_cons_of_gt h, ih]

theorem insert_comm_of_lt (h : j < k) (v w : α) (m : Members α) :
    (m.insert j v).insert k w = (m.insert k w).insert j v := by
  induction m with
  | nil => exact (insert_cons_of_gt h w v []).trans (insert_cons_of_lt h v w []).symm
  | cons p rest ih =>
    obtain ⟨k', v'⟩ := p
    rcases Std.lt_trichotomy j k' with hj | rfl | hj
    · -- `j` comes first, before `k'` or what is put there for `k`
      rw [insert_cons_of_lt hj, insert_cons_of_gt h]
      rcases Std.lt_trichotomy k k' with hk | rfl | hk
      · rw [insert_cons_of_lt hk, insert_cons_of_lt h]
      · rw [insert_cons_self, insert_cons_of_lt h]
      · rw [insert_cons_of_gt hk, insert_cons_of_lt hj]
    · rw [insert_cons_self, insert_cons_of_gt h, insert_cons_of_gt h, insert_cons_self]
    · have hk : k' < k := String.lt_trans hj h
      rw [insert_cons_of_gt hj, insert_cons_of_gt hk, insert_cons_of_gt hk, insert_cons_of_gt hj,
        ih]

theorem insert_comm (h : j ≠ k) (v w : α) (m : Members α) :
    (m.insert j v).insert k w = (m.insert k w).insert j v := by
  rcases Std.lt_trichotomy j k with hlt | heq | hlt
  · exact insert_comm_of_lt hlt v w m
  · exact absurd heq h
  · exact (insert_comm_of_lt hlt w v m).symm

end Rulebook.Members
