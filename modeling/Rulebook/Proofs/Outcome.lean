/-!
# Outcomes of computations that may fail

When a computation in `Except` succeeds, so did each of its parts:

    x >>= f = .ok b   ↔   ∃ a, x = .ok a ∧ f a = .ok b

and what holds of the errors of the parts holds of its own (`OnError.bind`).

`outcome x s` is how a computation ends from the state `s`, and the state after it.  The state is
kept when the computation fails:

    outcome x s = (.error e, t)   →   outcome (x >>= f) s = (.error e, t)
-/

namespace Rulebook

variable {ε σ α β : Type}

/-! ## Without a state -/

theorem map_ok_iff {x : Except ε α} {f : α → β} {b : β} :
    x.map f = .ok b ↔ ∃ a, x = .ok a ∧ f a = b := by
  cases x <;> simp [Except.map]

theorem map_error_iff {x : Except ε α} {f : α → β} {e : ε} :
    x.map f = .error e ↔ x = .error e := by
  cases x <;> simp [Except.map]

theorem bind_ok_iff {x : Except ε α} {f : α → Except ε β} {b : β} :
    x >>= f = .ok b ↔ ∃ a, x = .ok a ∧ f a = .ok b := by
  cases x <;> simp [bind, Except.bind]

theorem mapError_ok_iff {ε' : Type} {x : Except ε α} {f : ε → ε'} {a : α} :
    x.mapError f = .ok a ↔ x = .ok a := by
  cases x with
  | ok b =>
    show Except.ok b = Except.ok a ↔ _
    rw [Except.ok.injEq, Except.ok.injEq]
  | error => exact ⟨nofun, nofun⟩

theorem exists_ok_of_isOk {x : Except ε α} (h : x.isOk = true) : ∃ a, x = .ok a := by
  cases x with
  | ok a => exact ⟨a, rfl⟩
  | error e => cases h

theorem eq_ok_of_toOption {x : Except ε α} {a : α} (h : x.toOption = some a) : x = .ok a := by
  cases x with
  | ok b => exact congrArg Except.ok (Option.some.inj h)
  | error e => cases h

/-- Where the computation fails, `P` holds of its error. -/
def OnError (P : ε → Prop) (x : Except ε α) : Prop := ∀ e, x = .error e → P e

section
variable {P : ε → Prop} {x : Except ε α}

theorem onError_ok (a : α) : OnError P (.ok a) := nofun

theorem onError_error {e : ε} (h : P e) : OnError P (.error e : Except ε α) := by
  rintro _ ⟨⟩
  exact h

theorem OnError.bind {f : α → Except ε β} (hx : OnError P x)
    (hf : ∀ a, x = .ok a → OnError P (f a)) : OnError P (x >>= f) := by
  intro e h
  cases hxe : x with
  | ok a =>
    rw [hxe] at h
    exact hf a hxe e h
  | error e' =>
    rw [hxe] at h
    cases h
    exact hx e hxe

theorem OnError.map {f : α → β} (hx : OnError P x) : OnError P (x.map f) := by
  cases x with
  | ok a => exact onError_ok _
  | error e => exact onError_error (hx e rfl)

theorem OnError.mapError {ε' : Type} {P : ε' → Prop} {f : ε → ε'}
    (hx : OnError (fun e => P (f e)) x) : OnError P (x.mapError f) := by
  cases x with
  | ok a => exact onError_ok _
  | error e => exact onError_error (hx e rfl)

end

/-! ## With a state -/

/-- How a computation ends from a state, and the state after it. -/
def outcome (x : ExceptT ε (StateM σ) α) (s : σ) : Except ε α × σ := x.run.run s

/-- What follows a computation that ended so. -/
def continued (f : α → ExceptT ε (StateM σ) β) : Except ε α × σ → Except ε β × σ
  | (.ok a, s) => outcome (f a) s
  | (.error e, s) => (.error e, s)

@[simp] theorem outcome_pure (a : α) (s : σ) :
    outcome (pure a : ExceptT ε (StateM σ) α) s = (.ok a, s) := rfl

@[simp] theorem outcome_throw (e : ε) (s : σ) :
    outcome (throw e : ExceptT ε (StateM σ) α) s = (.error e, s) := rfl

@[simp] theorem outcome_get (s : σ) :
    outcome (get : ExceptT ε (StateM σ) σ) s = (.ok s, s) := rfl

@[simp] theorem outcome_modify (f : σ → σ) (s : σ) :
    outcome (modify f : ExceptT ε (StateM σ) Unit) s = (.ok (), f s) := rfl

theorem outcome_bind (x : ExceptT ε (StateM σ) α) (f : α → ExceptT ε (StateM σ) β) (s : σ) :
    outcome (x >>= f) s = continued f (outcome x s) := by
  show (ExceptT.bindCont f (outcome x s).1 : StateM σ (Except ε β)).run (outcome x s).2 = _
  rcases outcome x s with ⟨e | a, t⟩ <;> rfl

theorem outcome_bind_ok_iff {x : ExceptT ε (StateM σ) α} {f : α → ExceptT ε (StateM σ) β}
    {s t : σ} {b : β} : outcome (x >>= f) s = (.ok b, t) ↔
      ∃ a u, outcome x s = (.ok a, u) ∧ outcome (f a) u = (.ok b, t) := by
  rw [outcome_bind]
  rcases outcome x s with ⟨e | a, u⟩
  · exact ⟨nofun, nofun⟩
  · constructor
    · exact fun h => ⟨a, u, rfl, h⟩
    · rintro ⟨a', u', h, h'⟩
      cases h
      exact h'

/-- From every state the computation returns what `Q` holds of, or raises what `P` holds of. -/
def Ends (P : ε → Prop) (Q : α → Prop) (x : ExceptT ε (StateM σ) α) : Prop :=
  ∀ s, match (outcome x s).1 with
    | .ok a => Q a
    | .error e => P e

variable {P : ε → Prop} {Q : α → Prop} {R : β → Prop} {x : ExceptT ε (StateM σ) α}

theorem ends_pure {a : α} (h : Q a) : Ends (σ := σ) P Q (pure a) := fun _ => h

theorem ends_throw {e : ε} (h : P e) : Ends (σ := σ) P Q (throw e) := fun _ => h

theorem ends_get : Ends (σ := σ) P (fun _ => True) get := fun _ => trivial

theorem ends_modify {f : σ → σ} : Ends P (fun _ => True) (modify f) := fun _ => trivial

theorem Ends.bind {f : α → ExceptT ε (StateM σ) β} (hx : Ends P Q x)
    (hf : ∀ a, Q a → Ends P R (f a)) : Ends P R (x >>= f) := by
  intro s
  rw [outcome_bind]
  have hs := hx s
  generalize outcome x s = r at hs
  obtain ⟨e | a, t⟩ := r
  · exact hs
  · exact hf a hs t

/-- What is raised, when nothing is asked of the values. -/
theorem ends_iff : Ends P (fun _ => True) x ↔ ∀ s e, (outcome x s).1 = .error e → P e := by
  constructor
  · intro h s e he
    have hs := h s
    rwa [he] at hs
  · intro h s
    split
    · trivial
    · next e he => exact h s e he

end Rulebook
