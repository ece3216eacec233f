import Rulebook.Proofs.Run.Builtin
import Rulebook.Proofs.Run.Nested
import Rulebook.Proofs.Value.Path

/-!
# Properties set by actions

What SET does with a property and a value that are written out.  A SET that fails leaves the run as
it was, with one exception: where the property has no name, null has become an empty object
(`run_set_error`), although nothing is written into it.
-/

namespace Rulebook

namespace Builtin

open Script

variable {kind : ActionKind} {params : List ParamRun} {property v : Value}

/-- The target with the value written, or, where that fails, with an object in the place of null. -/
theorem outcome_setProperty (h0 : (ParamRun.at kind params 0).value = pure property)
    (h1 : (ParamRun.at kind params 1).value = pure v) (s : RunState) :
    outcome (setProperty.exec kind params) s =
      match Value.write (Value.path property.toText) v s.target with
      | .ok t => (.ok (.completeWith v), { s with target := t })
      | .error e =>
        (.error (.invalidTarget .set (.path e)), { s with target := s.target.orObject }) := by
  unfold setProperty
  rw [outcome_exec_bind, outcome_exec_getValue_pure h0, continued, outcome_exec_bind,
    outcome_exec_getValue_pure h1, continued]
  show outcome (exec kind params (match Value.write (Value.path property.toText) v s.target with
    | .ok t => _ | .error e => _)) s = _
  cases Value.write (Value.path property.toText) v s.target <;> rfl

end Builtin

theorem Value.orObject_of_not_null {v : Value} (h : v.isNull = false) : v.orObject = v := by
  cases v with
  | null => cases h
  | bool | integer | decimal | text | date | list | object => rfl

/-- A path that cannot be written leaves the target as it is, unless that is null and the path has
no names. -/
theorem Value.orObject_of_write_error {names : List String} {v target : Value} {e : PathError}
    (h : write names v target = .error e) :
    if target.isNull = true ∧ e = .noName then names = [] ∧ target.orObject = .object []
    else target.orObject = target := by
  cases hnull : target.isNull with
  | true =>
    cases target <;> cases hnull
    obtain ⟨rfl, rfl⟩ := eq_nil_of_write_null h
    exact ⟨rfl, rfl⟩
  | false =>
    rw [if_neg nofun]
    exact orObject_of_not_null hnull

namespace Action

variable {en : Engine} {a : Action} {property v : Value} {depth : Nat} {s t : RunState}
  {e : RunError}

/-- A SET that is not refused fails where its property cannot be written. -/
theorem run_set_cases (hset : ∀ h, en.registry.handler? .set = some h → h.script = Builtin.set)
    (hkind : a.kind = .set) (hparams : a.params = [.literal property, .literal v])
    (hrun : outcome (a.run en depth) s = (.error e, t)) :
    t = s ∧ (e = .tooDeep en.maxDepth ∨ e = .noHandler .set) ∨
      ∃ fault, Value.write (Value.path property.toText) v s.target = .error fault ∧
        e = .invalidTarget .set (.path fault) ∧ t = { s with target := s.target.orObject } := by
  have hcases := run_error_cases hrun
  rw [hkind] at hcases
  obtain hrefused | ⟨h, hh, hscript⟩ := hcases
  · exact .inl hrefused
  · have hproperty : h.script ⟨a, en.today, en.evaluator.config⟩ = Builtin.setProperty := by
      rw [hset h hh]
      exact if_pos (congrArg List.length hparams)
    rw [hproperty, hparams, Builtin.outcome_setProperty rfl rfl] at hscript
    cases hwrite : Value.write (Value.path property.toText) v s.target with
    | ok target =>
      rw [hwrite] at hscript
      cases hscript
    | error fault =>
      rw [hwrite] at hscript
      cases hscript
      exact .inr ⟨fault, rfl, rfl, rfl⟩

/-- **A SET that fails leaves the run as it was**, unless it failed for want of a name and the
target was null: then the target is an empty object. -/
theorem run_set_error (hset : ∀ h, en.registry.handler? .set = some h → h.script = Builtin.set)
    (hkind : a.kind = .set) (hparams : a.params = [.literal property, .literal v])
    (hrun : outcome (a.run en depth) s = (.error e, t)) :
    if s.target.isNull = true ∧ e = .invalidTarget .set (.path .noName) then
      Value.path property.toText = [] ∧ t = { s with target := .object [] }
    else t = s := by
  rcases run_set_cases hset hkind hparams hrun with ⟨rfl, he⟩ | ⟨fault, hwrite, rfl, rfl⟩
  · rw [if_neg]
    rintro ⟨-, rfl⟩
    rcases he with he | he <;> cases he
  · have htarget := Value.orObject_of_write_error hwrite
    simp only [RunError.invalidTarget.injEq, TargetFault.path.injEq, true_and]
    split
    · next hnull =>
      rw [if_pos hnull] at htarget
      exact ⟨htarget.1, by rw [htarget.2]⟩
    · next hnull =>
      rw [if_neg hnull] at htarget
      rw [htarget]

/-- `SET('a.b.c',1)` meets a number on its way. -/
theorem run_set_error_at_number :
    let en : Engine := { registry := .builtin, today := .earliest }
    let a : Action := .of .set [.literal (.text "a.b.c"), .literal (.integer 1)]
    let s : RunState := { target := .object [("a", .object [("b", .integer 3)])] }
    outcome (a.run en 0) s =
      (.error (.invalidTarget .set (.path (.notAnObject ["c"] .integer))), s) := by
  intro en a s
  have hset : ∀ h, en.registry.handler? .set = some h → h.script = Builtin.set := by
    rintro _ ⟨⟩
    rfl
  obtain ⟨t, ht⟩ : ∃ t, outcome (a.run en 0) s =
      (.error (.invalidTarget .set (.path (.notAnObject ["c"] .integer))), t) := ⟨_, rfl⟩
  have hkept := run_set_error hset rfl rfl ht
  rw [if_neg nofun] at hkept
  rw [ht, hkept]

/-- `SET('',1)` fails and makes an empty object of null. -/
theorem run_set_without_name :
    let en : Engine := { registry := .builtin, today := .earliest }
    let a : Action := .of .set [.literal (.text ""), .literal (.integer 1)]
    let s : RunState := { target := .null }
    ∃ t, outcome (a.run en 0) s = (.error (.invalidTarget .set (.path .noName)), t) ∧
      t.target = .object [] ∧ t.target ≠ s.target :=
  ⟨_, rfl, rfl, nofun⟩

end Action

end Rulebook
