/-!
# JSON documents

Numbers are whole or decimal.  The members of an object are kept in the order of their keys, each
key once; `insert` is the only way members are added, and a later member replaces an earlier one:

    (members.insert k v).lookup k = some v
-/

namespace Rulebook

/-- An association list ordered by key. -/
abbrev Members (α : Type) := List (String × α)

namespace Members

variable {α β : Type}

/-- Adds or replaces the member under `k`, keeping the order of keys. -/
def insert (k : String) (v : α) : Members α → Members α
  | [] => [(k, v)]
  | (k', v') :: rest =>
    if k = k' then (k, v) :: rest
    else if k < k' then (k, v) :: (k', v') :: rest
    else (k', v') :: insert k v rest

def get? (k : String) : Members α → Option α
  | [] => none
  | (k', v) :: rest => if k = k' then some v else get? k rest

/-- Inserts the pairs one after the other. -/
def ofList (pairs : List (String × α)) : Members α :=
  pairs.foldl (fun m p => m.insert p.1 p.2) []

/-- Keys strictly increasing. -/
def Ordered (m : Members α) : Prop := m.Pairwise fun a b => a.1 < b.1

/-! ## Lemmas -/

@[simp] theorem get?_insert_self (k : String) (v : α) (m : Members α) :
    (m.insert k v).get? k = some v := by
  induction m with
  | nil => simp [insert, get?]
  | cons p rest ih =>
    obtain ⟨k', v'⟩ := p
    unfold insert
    split
    · simp [get?]
    · next h => split <;> simp [get?, h, ih]

theorem get?_insert_of_ne {k j : String} (h : j ≠ k) (v : α) (m : Members α) :
    (m.insert k v).get? j = m.get? j := by
  induction m with
  | nil => simp [insert, get?, h]
  | cons p rest ih =>
    obtain ⟨k', v'⟩ := p
    unfold insert
    split
    · next hk => subst hk; simp [get?, h]
    · split
      · simp [get?, h]
      · simp [get?, ih]

end Members

/-- A JSON document. -/
inductive Json where
  | null
  | bool (b : Bool)
  | integer (n : Int)
  | decimal (x : Float)
  | string (s : String)
  | array (items : List Json)
  | object (members : List (String × Json))
deriving Inhabited

end Rulebook
