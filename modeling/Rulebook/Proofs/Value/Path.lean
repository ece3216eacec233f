import Rulebook.Proofs.Json.Members
import Rulebook.Proofs.Outcome
import Rulebook.Value.Path

/-!
# Reading and writing under paths

A path is apart from another when neither goes on where the other ends.  What is written under a
path is read there, and nothing changes under the paths apart from it:

    write (path p) v t = .ok u   →   u.get? p = some v
                                 →   u.get? q = t.get? q        for `q` apart from `p`

A second write under the path replaces the first, and writes under paths that are apart can be done
in either order (`write_laws`).

The end of a path has no name left to write: `put` replaces the value there, and is `write` along
every path that has names (`write_eq_put`).
-/

namespace Rulebook

/-- Neither path goes on where the other ends. -/
def Apart (p q : List String) : Prop := ¬p <+: q ∧ ¬q <+: p

namespace Apart

variable {p q : List String} {m n : String}

instance (p q : List String) : Decidable (Apart p q) :=
  inferInstanceAs (Decidable (¬p <+: q ∧ ¬q <+: p))

theorem not_nil_left (h : Apart [] q) : False := h.1 List.nil_prefix

theorem not_nil_right (h : Apart p []) : False := h.2 List.nil_prefix

theorem of_cons (h : Apart (n :: p) (n :: q)) : Apart p q :=
  ⟨fun hp => h.1 (List.prefix_cons_inj n |>.2 hp), fun hq => h.2 (List.prefix_cons_inj n |>.2 hq)⟩

end Apart

namespace Value

variable {p q rest : List String} {name : String} {t u v w : Value}

/-- Writing at the end of a path as well, where the value is replaced. -/
def put : List String → Value → Value → Except PathError Value
  | [], w, _ => .ok w
  | name :: rest, w, v =>
    match v.fields? with
    | none => .error (.notAnObject (name :: rest) v.kind)
    | some fields => (put rest w ((Members.get? name fields).getD .null)).map fun inner =>
        .object (Members.insert name inner fields)

theorem put_cons (rest : List String) (name : String) (w : Value)
    {fields : List (String × Value)} (h : v.fields? = some fields) :
    put (name :: rest) w v = (put rest w ((Members.get? name fields).getD .null)).map
      fun inner => .object (Members.insert name inner fields) := by
  rw [put, h]

theorem write_eq_put (hp : p ≠ []) (w v : Value) : write p w v = put p w v := by
  induction p generalizing v with
  | nil => exact absurd rfl hp
  | cons name rest ih =>
    unfold write
    split
    · next h => rw [put, h]
    · next fields h =>
      rw [put_cons rest name w h]
      cases rest with
      | nil => rfl
      | cons next rest =>
        dsimp only
        rw [ih nofun]
        cases put (next :: rest) w ((Members.get? name fields).getD .null) <;> rfl

theorem ne_nil_of_write (h : write p w v = .ok u) : p ≠ [] := by
  rintro rfl
  unfold write at h
  split at h <;> cases h

/-- The write of a name writes the rest below it, in the fields of an object or of null. -/
theorem put_cons_ok_iff : put (name :: rest) w v = .ok u ↔
    ∃ fields inner, v.fields? = some fields ∧
      put rest w ((Members.get? name fields).getD .null) = .ok inner ∧
      .object (Members.insert name inner fields) = u := by
  cases h : v.fields? with
  | none => simp [put, h]
  | some fields => simp [put_cons rest name w h, map_ok_iff]

theorem at?_cons (name : String) (rest : List String) {fields : List (String × Value)}
    (h : v.fields? = some fields) :
    at? (name :: rest) v = (Members.get? name fields).bind (at? rest) := by
  cases v <;> cases h <;> rfl

/-- Where there is no value, there is none under its names. -/
theorem at?_getD_null (hp : p ≠ []) (o : Option Value) : at? p (o.getD .null) = o.bind (at? p) := by
  cases o with
  | some v => rfl
  | none =>
    obtain ⟨name, rest, rfl⟩ := List.exists_cons_of_ne_nil hp
    rfl

/-- Under null a path that has names can always be written. -/
theorem exists_put_null (p : List String) (w : Value) : ∃ u, put p w .null = .ok u := by
  induction p with
  | nil => exact ⟨w, rfl⟩
  | cons name rest ih =>
    obtain ⟨inner, hinner⟩ := ih
    exact ⟨_, put_cons_ok_iff.2 ⟨[], inner, rfl, hinner, rfl⟩⟩

theorem eq_nil_of_write_null {e : PathError} (h : write p w .null = .error e) :
    p = [] ∧ e = .noName := by
  cases p with
  | nil =>
    cases h
    exact ⟨rfl, rfl⟩
  | cons name rest =>
    obtain ⟨u, hu⟩ := exists_put_null (name :: rest) w
    rw [write_eq_put (List.cons_ne_nil name rest), hu] at h
    cases h

/-! ## The laws of paths -/

theorem at?_put (h : put p w v = .ok u) : at? p u = some w := by
  induction p generalizing v u with
  | nil =>
    cases h
    rfl
  | cons name rest ih =>
    obtain ⟨fields, inner, -, hinner, rfl⟩ := put_cons_ok_iff.1 h
    rw [at?, Members.get?_insert_self, Option.bind_some, ih hinner]

theorem at?_put_of_apart (hq : Apart p q) (h : put p w v = .ok u) : at? q u = at? q v := by
  induction p generalizing q v u with
  | nil => exact hq.not_nil_left.elim
  | cons name rest ih =>
    obtain ⟨fields, inner, hfields, hinner, rfl⟩ := put_cons_ok_iff.1 h
    cases q with
    | nil => exact hq.not_nil_right.elim
    | cons name' rest' =>
      rw [at?_cons name' rest' hfields, at?]
      by_cases hname : name' = name
      · subst hname
        have hrest : Apart rest rest' := hq.of_cons
        have hne : rest' ≠ [] := by
          rintro rfl
          exact hrest.not_nil_right
        rw [Members.get?_insert_self, Option.bind_some, ih hrest hinner, at?_getD_null hne]
      · rw [Members.get?_insert_of_ne hname]

theorem exists_put (h : put p v t = .ok u) (w : Value) : ∃ u', put p w t = .ok u' := by
  induction p generalizing t u with
  | nil => exact ⟨w, rfl⟩
  | cons name rest ih =>
    obtain ⟨fields, inner, hfields, hinner, -⟩ := put_cons_ok_iff.1 h
    obtain ⟨inner', hinner'⟩ := ih hinner
    exact ⟨_, put_cons_ok_iff.2 ⟨fields, inner', hfields, hinner', rfl⟩⟩

theorem put_put (h : put p v t = .ok u) (w : Value) : put p w u = put p w t := by
  induction p generalizing t u with
  | nil => rfl
  | cons name rest ih =>
    obtain ⟨fields, inner, hfields, hinner, rfl⟩ := put_cons_ok_iff.1 h
    rw [put_cons rest name w rfl, put_cons rest name w hfields, Members.get?_insert_self,
      Option.getD_some, ih hinner]
    simp only [Members.insert_insert_self]

theorem put_comm (hq : Apart p q) {t' : Value} (hp : put p v t = .ok t')
    (h : put q w t' = .ok u) : ∃ t'', put q w t = .ok t'' ∧ put p v t'' = .ok u := by
  induction p generalizing q t t' u with
  | nil => exact hq.not_nil_left.elim
  | cons name rest ih =>
    obtain ⟨fields, inner, hfields, hinner, rfl⟩ := put_cons_ok_iff.1 hp
    cases q with
    | nil => exact hq.not_nil_right.elim
    | cons name' rest' =>
      obtain ⟨_, inner', hfields', hinner', rfl⟩ := put_cons_ok_iff.1 h
      cases hfields'
      by_cases hname : name' = name
      · -- both are written in the value under one name
        subst hname
        rw [Members.get?_insert_self, Option.getD_some] at hinner'
        obtain ⟨between, hbetween, hlast⟩ := ih hq.of_cons hinner hinner'
        refine ⟨_, put_cons_ok_iff.2 ⟨fields, between, hfields, hbetween, rfl⟩,
          put_cons_ok_iff.2 ⟨_, inner', rfl, ?_, ?_⟩⟩
        · rw [Members.get?_insert_self, Option.getD_some, hlast]
        · rw [Members.insert_insert_self, Members.insert_insert_self]
      · rw [Members.get?_insert_of_ne hname] at hinner'
        refine ⟨_, put_cons_ok_iff.2 ⟨fields, inner', hfields, hinner', rfl⟩,
          put_cons_ok_iff.2 ⟨_, inner, rfl, ?_, ?_⟩⟩
        · rw [Members.get?_insert_of_ne (Ne.symm hname), hinner]
        · rw [Members.insert_comm hname]

/-- **The laws of writing**: the value is read where it was written, other paths read as before, a
second write replaces the first, and writes under paths that are apart can change places.  Of these
writes the ones that are not assumed to succeed do. -/
theorem write_laws {property : String} (h : write (path property) v t = .ok u) :
    u.get? property = some v ∧
      (∀ other, Apart (path property) (path other) → u.get? other = t.get? other) ∧
      (∀ w, ∃ u', write (path property) w u = .ok u' ∧ write (path property) w t = .ok u') ∧
      ∀ other w u', Apart (path property) (path other) → write (path other) w u = .ok u' →
        ∃ t', write (path other) w t = .ok t' ∧ write (path property) v t' = .ok u' := by
  have hproperty := ne_nil_of_write h
  rw [write_eq_put hproperty] at h
  refine ⟨at?_put h, fun other hother => at?_put_of_apart hother h, fun w => ?_, ?_⟩
  · obtain ⟨u', hu'⟩ := exists_put h w
    rw [write_eq_put hproperty, write_eq_put hproperty, put_put h]
    exact ⟨u', hu', hu'⟩
  · intro other w u' hother hw
    have hne := ne_nil_of_write hw
    rw [write_eq_put hne] at hw
    obtain ⟨t', ht', hu'⟩ := put_comm hother h hw
    rw [write_eq_put hne]
    refine ⟨t', ht', ?_⟩
    rw [write_eq_put hproperty, hu']

/-- Two properties of an order that is null at first. -/
theorem write_laws_order :
    let t : Value := .object [("note", .text "x"), ("order", .null)]
    let u : Value := .object [("note", .text "x"), ("order", .object [("total", .integer 5)])]
    let u' : Value := .object [("note", .text "x"),
      ("order", .object [("tax", .integer 1), ("total", .integer 5)])]
    write (path "order.total") (.integer 5) t = .ok u ∧
      Apart (path "order.total") (path "order..tax") ∧
      u.get? "order.total" = some (.integer 5) ∧ u.get? "order..tax" = t.get? "order..tax" ∧
      (∃ u', write (path "order.total") .null u = .ok u' ∧
        write (path "order.total") .null t = .ok u') ∧
      write (path "order..tax") (.integer 1) u = .ok u' ∧
      ∃ t', write (path "order..tax") (.integer 1) t = .ok t' ∧
        write (path "order.total") (.integer 5) t' = .ok u' := by
  intro t u u'
  have htotal : write (path "order.total") (.integer 5) t = .ok u := rfl
  have htax : write (path "order..tax") (.integer 1) u = .ok u' := rfl
  have hapart : Apart (path "order.total") (path "order..tax") := by decide
  obtain ⟨hread, hkept, hagain, hcomm⟩ := write_laws htotal
  exact ⟨htotal, hapart, hread, hkept _ hapart, hagain _, htax, hcomm _ _ _ hapart htax⟩

end Value

end Rulebook
