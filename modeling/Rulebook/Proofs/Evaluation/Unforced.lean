import Rulebook.Proofs.Evaluation.Test
import Rulebook.Proofs.Nesting.Height

/-!
# Rules without force

A rule none of whose brackets is forced is tested without side effects: each bracket says of the
value what it says of it alone, and the rule says what its joins make of these answers.

    some bracket errs alone   →  the error of the first such bracket, from left to right
    no bracket errs alone     →  the truth of the tree over the answers, and the value as it was
-/

namespace Rulebook

variable {α β : Type}

/-- On the value `v` a computation ends in `r` and leaves the value, whatever was recorded. -/
def Answers (x : TestM α) (v : Value) (r : Except EvalError α) : Prop :=
  ∀ ds, ∃ ds', outcome x ⟨v, ds⟩ = (r, ⟨v, ds'⟩)

namespace Answers

variable {x : TestM α} {f : α → TestM β} {v : Value} {a : α} {e : EvalError}

theorem pure {a : α} : Answers (Pure.pure a) v (.ok a) := fun ds => ⟨ds, rfl⟩

theorem throw : Answers (MonadExcept.throw e : TestM α) v (.error e) := fun ds => ⟨ds, rfl⟩

theorem value : Answers TestM.value v (.ok v) := fun ds => ⟨ds, rfl⟩

theorem fail {kind : FailureKind} {rule detail : String} :
    Answers (TestM.fail kind rule detail) v (.ok false) := fun _ => ⟨_, rfl⟩

theorem bind {r : Except EvalError β} (hx : Answers x v (.ok a)) (hf : Answers (f a) v r) :
    Answers (x >>= f) v r := by
  intro ds
  obtain ⟨ds₁, h₁⟩ := hx ds
  obtain ⟨ds₂, h₂⟩ := hf ds₁
  exact ⟨ds₂, by rw [outcome_bind, h₁]; exact h₂⟩

theorem bind_error (hx : Answers x v (.error e)) : Answers (x >>= f) v (.error e) := by
  intro ds
  obtain ⟨ds₁, h₁⟩ := hx ds
  exact ⟨ds₁, by rw [outcome_bind, h₁]; rfl⟩

theorem exists_bind (hx : ∃ r, Answers x v r) (hf : ∀ a, ∃ r, Answers (f a) v r) :
    ∃ r, Answers (x >>= f) v r := by
  obtain ⟨e | a, hr⟩ := hx
  · exact ⟨_, hr.bind_error⟩
  · obtain ⟨r, hf⟩ := hf a
    exact ⟨r, hr.bind hf⟩

theorem quietIfPassed {x : TestM Bool} {r : Except EvalError Bool} (hx : Answers x v r) :
    Answers (TestM.quietIfPassed x) v r := by
  intro ds
  obtain ⟨ds₁, h₁⟩ := hx ds
  rw [TestM.outcome_quietIfPassed, h₁]
  rcases r with e | passed
  · exact ⟨ds₁, rfl⟩
  · cases passed
    · exact ⟨ds₁, rfl⟩
    · exact ⟨ds₁.take ds.length, rfl⟩

end Answers

/-! ## Brackets -/

namespace Modifier

/-- Only forced modifiers mend the value. -/
theorem check_ne_mended {m : Modifier} {s : CheckSetting} {v w : Value} (hforce : s.force = false) :
    m.check s v ≠ .ok (.mended w) := by
  intro h
  unfold check at h
  split at h
  · cases h
  cases m with
  | upper | lower =>
    simp only [checkValue, checkCase, hforce] at h
    split at h
    · split at h <;> cases h
    · cases h
  | ignoreCase => cases h
  | max | min =>
    simp only [checkValue, checkMax, checkMin, hforce] at h
    split at h
    · split at h <;> cases h
    · split at h <;> cases h
    · split at h
      · split at h <;> cases h
      · cases h
  | email =>
    simp only [checkValue, checkEmail] at h
    split at h
    · split at h <;> cases h
    · cases h
  | oneOf =>
    simp only [checkValue, checkOneOf] at h
    split at h <;> cases h
  | inTable =>
    simp only [checkValue, checkTables] at h
    split at h
    · cases h
    · split at h <;> cases h
  | required =>
    simp only [checkValue] at h
    split at h <;> cases h
  | roundUp | roundDown =>
    simp only [checkValue, checkRounding, hforce] at h
    split at h
    · cases h
    · cases h
    · split at h <;> cases h
  | between =>
    simp only [checkValue, checkRange, hforce, Bool.false_and, Bool.false_eq_true, if_false] at h
    split at h
    · split at h
      · cases h
      · split at h <;> cases h
    · split at h
      · cases h
      · split at h <;> cases h

end Modifier

namespace Bracket

variable {b : Bracket} {v : Value}

theorem testOperand_answers : ∃ r, Answers b.testOperand v r := by
  refine Answers.exists_bind ⟨_, .value⟩ fun w => ?_
  split
  · exact ⟨_, .pure⟩
  · split
    · exact ⟨_, .pure⟩
    · exact ⟨_, .fail⟩

theorem testModifier_answers (hforce : b.force = false) (lookup : Option Lookup) (m : Modifier) :
    ∃ r, Answers (b.testModifier lookup m) v r := by
  refine Answers.exists_bind ⟨_, .value⟩ fun w => ?_
  split
  · exact ⟨_, .throw⟩
  · exact ⟨_, .pure⟩
  · next hmended => exact absurd hmended (Modifier.check_ne_mended hforce)
  · exact ⟨_, .fail⟩

theorem testModifiers_answers (hforce : b.force = false) (lookup : Option Lookup)
    (ms : List Modifier) : ∃ r, Answers (b.testModifiers lookup ms) v r := by
  induction ms with
  | nil => exact ⟨_, .pure⟩
  | cons m ms ih =>
    refine Answers.exists_bind (testModifier_answers hforce lookup m) fun p => ?_
    exact Answers.exists_bind ih fun q => ⟨_, .pure⟩

theorem test_answers (hforce : b.force = false) (lookup : Option Lookup) :
    ∃ r, Answers (b.test lookup) v r := by
  refine Answers.exists_bind testOperand_answers fun p => ?_
  exact Answers.exists_bind (testModifiers_answers hforce lookup b.modifiers) fun q => ⟨_, .pure⟩

end Bracket

/-! ## Trees -/

/-- Whether a group holds, when its members hold as listed. -/
def Join.truth : Join → OrMode → List Bool → Bool
  | _, _, [] => true
  | .and, _, bs => bs.all (· = true)
  | .or, .anyFalse, bs => bs.any (· = false)
  | .or, .anyTrue, bs => bs.any (· = true)

theorem Join.resolve_eq_truth (join : Join) (mode : OrMode) (bs : List Bool) :
    join.resolve mode bs = join.truth mode bs := by
  have hid : (id : Bool → Bool) = fun b => decide (b = true) := by
    funext b
    cases b <;> rfl
  have hnot : (fun b : Bool => !b) = fun b => decide (b = false) := by
    funext b
    cases b <;> rfl
  cases bs with
  | nil => cases join <;> cases mode <;> rfl
  | cons b bs =>
    cases join <;> cases mode <;>
      simp only [Join.resolve, Join.truth, List.isEmpty_cons, Bool.false_or, hid, hnot]

namespace Rule

mutual

/-- The brackets of a rule, from left to right. -/
def leaves : Rule → List Bracket
  | .bracket b => [b]
  | .node _ _ groups => groupsLeaves groups

def groupsLeaves : List (GroupOf Rule) → List Bracket
  | [] => []
  | g :: gs => groupLeaves g ++ groupsLeaves gs

def groupLeaves : GroupOf Rule → List Bracket
  | ⟨_, members⟩ => membersLeaves members

def membersLeaves : List Rule → List Bracket
  | [] => []
  | r :: rs => leaves r ++ membersLeaves rs

end

mutual

/-- Whether a rule holds, when its brackets hold as `p` says. -/
def truth (mode : OrMode) (p : Bracket → Bool) : Rule → Bool
  | .bracket b => p b
  | .node _ _ groups => groupsTruth mode p groups

def groupsTruth (mode : OrMode) (p : Bracket → Bool) : List (GroupOf Rule) → Bool
  | [] => true
  | g :: gs => groupTruth mode p g && groupsTruth mode p gs

def groupTruth (mode : OrMode) (p : Bracket → Bool) : GroupOf Rule → Bool
  | ⟨join, members⟩ => join.truth mode (membersTruth mode p members)

def membersTruth (mode : OrMode) (p : Bracket → Bool) : List Rule → List Bool
  | [] => []
  | r :: rs => truth mode p r :: membersTruth mode p rs

end

/-- The first error among brackets, or else a result. -/
def settle (error? : Bracket → Option EvalError) (bs : List Bracket) (a : α) : Except EvalError α :=
  match bs.findSome? error? with
  | some e => .error e
  | none => .ok a

end Rule

/-- A settled part before another. -/
theorem Answers.bind_settle {x : TestM α} {f : α → TestM β} {v : Value} {a : α} {b : β}
    {error? : Bracket → Option EvalError} {bs cs : List Bracket}
    (hx : Answers x v (Rule.settle error? bs a)) (hf : Answers (f a) v (Rule.settle error? cs b)) :
    Answers (x >>= f) v (Rule.settle error? (bs ++ cs) b) := by
  unfold Rule.settle at *
  rw [List.findSome?_append]
  cases hbs : bs.findSome? error? with
  | some e =>
    rw [hbs] at hx
    exact hx.bind_error
  | none =>
    rw [hbs] at hx
    exact hx.bind hf

/-- A settled part whose result is taken further. -/
theorem Answers.map_settle {x : TestM α} {v : Value} {a : α}
    {error? : Bracket → Option EvalError} {bs : List Bracket}
    (hx : Answers x v (Rule.settle error? bs a)) (g : α → β) :
    Answers (x >>= fun a => Pure.pure (g a)) v (Rule.settle error? bs (g a)) := by
  have hg : Answers (Pure.pure (g a)) v (Rule.settle error? [] (g a)) := .pure
  have h := hx.bind_settle (f := fun a => Pure.pure (g a)) hg
  rwa [List.append_nil] at h

namespace Rule

open Shape

section
variable {ev : Evaluator} {v : Value} {p : Bracket → Bool} {error? : Bracket → Option EvalError}

/-- Tested on `v`, the bracket gives its error, or else what `p` says of it. -/
def Agrees (ev : Evaluator) (v : Value) (p : Bracket → Bool)
    (error? : Bracket → Option EvalError) (b : Bracket) : Prop :=
  Answers (b.test ev.lookup) v (settle error? [b] (p b))

mutual

theorem test_answers : ∀ (r : Rule) (depth : Nat), (∀ b ∈ r.leaves, Agrees ev v p error? b) →
    depth + r.shape.height ≤ ev.config.maxDepth + 1 →
      Answers (test ev r depth) v (settle error? r.leaves (r.truth ev.config.orMode p))
  | .bracket b, depth, hleaves, _ => hleaves b (by simp [leaves])
  | .node _ _ groups, depth, hleaves, hdepth => by
    rw [shape, Shape.height] at hdepth
    rw [test, if_neg (by omega)]
    exact (testGroups_answers groups (depth + 1) hleaves (by omega)).quietIfPassed

theorem testGroups_answers : ∀ (gs : List (GroupOf Rule)) (depth : Nat),
    (∀ b ∈ groupsLeaves gs, Agrees ev v p error? b) →
    depth + groupsHeight (groupShapes gs) ≤ ev.config.maxDepth + 1 →
      Answers (testGroups ev gs depth) v
        (settle error? (groupsLeaves gs) (groupsTruth ev.config.orMode p gs))
  | [], _, _, _ => .pure
  | g :: gs, depth, hleaves, hdepth => by
    rw [groupShapes, groupsHeight] at hdepth
    rw [groupsLeaves] at hleaves ⊢
    rw [testGroups, groupsTruth]
    have hg := testGroup_answers g depth (fun b hb => hleaves b (by simp [hb])) (by omega)
    have hgs := testGroups_answers gs depth (fun b hb => hleaves b (by simp [hb])) (by omega)
    exact hg.bind_settle (hgs.map_settle _)

theorem testGroup_answers : ∀ (g : GroupOf Rule) (depth : Nat),
    (∀ b ∈ groupLeaves g, Agrees ev v p error? b) →
    depth + groupHeight (groupShape g) ≤ ev.config.maxDepth + 1 →
      Answers (testGroup ev g depth) v
        (settle error? (groupLeaves g) (groupTruth ev.config.orMode p g))
  | ⟨join, members⟩, depth, hleaves, hdepth => by
    rw [groupShape, groupHeight] at hdepth
    rw [groupLeaves] at hleaves ⊢
    rw [testGroup, groupTruth, ← Join.resolve_eq_truth]
    have hmembers := testMembers_answers members depth hleaves hdepth
    exact (hmembers.map_settle _).quietIfPassed

theorem testMembers_answers : ∀ (rs : List Rule) (depth : Nat),
    (∀ b ∈ membersLeaves rs, Agrees ev v p error? b) →
    depth + membersHeight (memberShapes rs) ≤ ev.config.maxDepth + 1 →
      Answers (testMembers ev rs depth) v
        (settle error? (membersLeaves rs) (membersTruth ev.config.orMode p rs))
  | [], _, _, _ => .pure
  | r :: rs, depth, hleaves, hdepth => by
    rw [memberShapes, membersHeight] at hdepth
    rw [membersLeaves] at hleaves ⊢
    rw [testMembers, membersTruth]
    have hr := test_answers r depth (fun b hb => hleaves b (by simp [hb])) (by omega)
    have hrs := testMembers_answers rs depth (fun b hb => hleaves b (by simp [hb])) (by omega)
    exact hr.bind_settle (hrs.map_settle _)

end

/-- The error of the bracket alone. -/
def errorAlone (ev : Evaluator) (v : Value) (b : Bracket) : Option EvalError :=
  match evaluate ev (.bracket b) v with
  | .ok _ => none
  | .error e => some e

theorem agrees_of_unforced {b : Bracket} (hforce : b.force = false)
    (hp : ∀ o, evaluate ev (.bracket b) v = .ok o → o.passed = p b) :
    Agrees ev v p (errorAlone ev v) b := by
  obtain ⟨r, hr⟩ := b.test_answers hforce (v := v) ev.lookup
  obtain ⟨ds, hds⟩ := hr []
  have halone : evaluate ev (.bracket b) v = Evaluation.ofOutcome (r, ⟨v, ds⟩) := by
    rw [evaluate_eq, test, hds]
  have hsettle : settle (errorAlone ev v) [b] (p b) = r := by
    rcases r with e | passed
    · simp [settle, errorAlone, halone, Evaluation.ofOutcome]
    · have hpassed : passed = p b := hp _ halone
      simp [settle, errorAlone, halone, Evaluation.ofOutcome, hpassed]
  rw [Agrees, hsettle]
  exact hr

/-- The evaluation of an unforced rule, by its brackets alone. -/
theorem evaluate_eq_settle {r : Rule} (hforce : ∀ b ∈ r.leaves, b.force = false)
    (hheight : r.height ≤ ev.config.maxDepth + 1)
    (hp : ∀ b ∈ r.leaves, ∀ o, evaluate ev (.bracket b) v = .ok o → o.passed = p b) :
    ∃ ds, r.evaluate ev v = Evaluation.ofOutcome
      (settle (errorAlone ev v) r.leaves (r.truth ev.config.orMode p), ⟨v, ds⟩) := by
  have hleaves : ∀ b ∈ r.leaves, Agrees ev v p (errorAlone ev v) b :=
    fun b hb => agrees_of_unforced (hforce b hb) (hp b hb)
  obtain ⟨ds, hds⟩ := test_answers r 0 hleaves (by rwa [Nat.zero_add]) []
  exact ⟨ds, by rw [evaluate_eq, hds]⟩

end

/-- An unforced rule within the limit errs as the first of its brackets that errs alone, whatever
stands around it.  When none does, it leaves the value and passes when the tree holds, each bracket
taken as it is alone. -/
theorem evaluate_of_unforced (ev : Evaluator) (r : Rule) (v : Value)
    (hforce : ∀ b ∈ r.leaves, b.force = false) (hheight : r.height ≤ ev.config.maxDepth + 1) :
    (∀ before b after e, r.leaves = before ++ b :: after →
      (∀ c ∈ before, ∃ o, evaluate ev (.bracket c) v = .ok o) →
        evaluate ev (.bracket b) v = .error e → r.evaluate ev v = .error e) ∧
    ∀ p : Bracket → Bool,
      (∀ b ∈ r.leaves, ∃ o, evaluate ev (.bracket b) v = .ok o ∧ o.passed = p b) →
        ∃ o, r.evaluate ev v = .ok o ∧ o.value = v ∧ o.passed = r.truth ev.config.orMode p := by
  constructor
  · intro before b after e hleaves hbefore hb
    -- nothing is asked of the answers of brackets that err, so any will do
    let p : Bracket → Bool := fun c => match evaluate ev (.bracket c) v with
      | .ok o => o.passed
      | .error _ => false
    have hp : ∀ c ∈ r.leaves, ∀ o, evaluate ev (.bracket c) v = .ok o → o.passed = p c := by
      intro c _ o ho
      simp [p, ho]
    have hfirst : r.leaves.findSome? (errorAlone ev v) = some e := by
      rw [hleaves, List.findSome?_append, List.findSome?_eq_none_iff.2]
      · simp [errorAlone, hb]
      · intro c hc
        obtain ⟨o, ho⟩ := hbefore c hc
        simp [errorAlone, ho]
    obtain ⟨ds, hds⟩ := evaluate_eq_settle hforce hheight hp
    rw [hds, settle, hfirst]
    rfl
  · intro p hp
    have hnone : r.leaves.findSome? (errorAlone ev v) = none := by
      rw [List.findSome?_eq_none_iff]
      intro b hb
      obtain ⟨o, ho, -⟩ := hp b hb
      simp [errorAlone, ho]
    obtain ⟨ds, hds⟩ := evaluate_eq_settle hforce hheight fun b hb o ho => by
      obtain ⟨o', ho', hpassed⟩ := hp b hb
      rw [ho] at ho'
      cases ho'
      exact hpassed
    rw [settle, hnone] at hds
    exact ⟨_, hds, rfl, rfl⟩

/-- `[|r]||([|r]&&[|u])`: a truth value is no text that could be upper case, though the first
bracket passes; on a text the or-join passes as its reading says. -/
theorem evaluate_of_unforced_present_or_upper :
    let present : Bracket :=
      ⟨"[|r]", ⟨0, 4⟩, .none, none, [.required], ModifierCode.required.flag, false⟩
    let upper : Bracket :=
      ⟨"[|u]", ⟨0, 4⟩, .none, none, [.upper], ModifierCode.upper.flag, false⟩
    let both : Rule := .node "[|r]&&[|u]" ⟨0, 10⟩ [⟨.and, [.bracket present, .bracket upper]⟩]
    let r : Rule := .node "[|r]||([|r]&&[|u])" ⟨0, 18⟩ [⟨.or, [.bracket present, both]⟩]
    r.evaluate { config := { maxDepth := 1 } } (.bool true) = .error (.wrongKind .upper .bool) ∧
    ∀ mode, ∃ o, r.evaluate { config := { maxDepth := 1, orMode := mode } } (.text "A") = .ok o ∧
      o.value = .text "A" ∧ o.passed = decide (mode = .anyTrue) := by
  intro present upper both r
  constructor
  · obtain ⟨herror, -⟩ := evaluate_of_unforced { config := { maxDepth := 1 } } r (.bool true)
      (by decide) (by decide)
    refine herror [present, present] upper [] _ rfl (fun c hc => ?_) rfl
    simp only [List.mem_cons, List.not_mem_nil, or_false, or_self] at hc
    exact ⟨⟨true, .bool true, []⟩, by rw [hc]; rfl⟩
  · intro mode
    obtain ⟨-, hok⟩ := evaluate_of_unforced { config := { maxDepth := 1, orMode := mode } } r
      (.text "A") (by decide) (Nat.le_refl 2)
    have hleaves : ∀ b ∈ r.leaves, ∃ o, evaluate { config := { maxDepth := 1, orMode := mode } }
        (.bracket b) (.text "A") = .ok o ∧ o.passed = true := by
      intro b hb
      replace hb : b ∈ [present, present, upper] := hb
      simp only [List.mem_cons, List.not_mem_nil, or_false] at hb
      obtain rfl | rfl | rfl := hb <;> exact ⟨⟨true, .text "A", []⟩, by rfl, rfl⟩
    obtain ⟨o, ho, hvalue, hpassed⟩ := hok (fun _ => true) hleaves
    exact ⟨o, ho, hvalue, by rw [hpassed]; cases mode <;> rfl⟩

end Rule

end Rulebook
