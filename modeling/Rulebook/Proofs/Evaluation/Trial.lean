import Rulebook.Proofs.Evaluation.Unforced

/-!
# Which diagnostics are kept

A trial is a rule with what testing it gave: of every bracket, whether it passed and the failures it
recorded.  Each bracket stands under the verdicts of the nodes and groups around it, and its
failures are kept when none of these passed:

    diagnostics after = diagnostics before ++ failures of the brackets under failed verdicts only
-/

namespace Rulebook

variable {α β : Type}

/-! ## What a test records -/

/-- On the value `v` a test ends in `r` and leaves `w`, and adds `ds` to whatever was recorded. -/
def Records (x : TestM α) (v : Value) (r : Except EvalError α) (w : Value) (ds : List Diagnostic) :
    Prop :=
  ∀ before, outcome x ⟨v, before⟩ = (r, ⟨w, before ++ ds⟩)

namespace Records

variable {x : TestM α} {f : α → TestM β} {v w u : Value} {a : α} {ds ds' : List Diagnostic}

theorem pure : Records (Pure.pure a) v (.ok a) v [] := by
  intro before
  rw [outcome_pure, List.append_nil]

theorem throw {e : EvalError} : Records (MonadExcept.throw e : TestM α) v (.error e) v [] := by
  intro before
  rw [outcome_throw, List.append_nil]

theorem value : Records TestM.value v (.ok v) v [] := by
  intro before
  rw [List.append_nil]
  rfl

theorem replaced : Records (modify fun s : TestState => { s with value := w }) v (.ok ()) w [] := by
  intro before
  rw [outcome_modify, List.append_nil]

theorem fail {kind : FailureKind} {rule detail : String} :
    Records (TestM.fail kind rule detail) v (.ok false) v [.failed kind rule v detail] :=
  fun _ => rfl

theorem bind {r : Except EvalError β} (hx : Records x v (.ok a) w ds)
    (hf : Records (f a) w r u ds') : Records (x >>= f) v r u (ds ++ ds') := by
  intro before
  rw [outcome_bind, hx before, ← List.append_assoc]
  exact hf (before ++ ds)

theorem bind_error {e : EvalError} (hx : Records x v (.error e) w ds) :
    Records (x >>= f) v (.error e) w ds := by
  intro before
  rw [outcome_bind, hx before]
  rfl

end Records

/-- What a test under the source of its rule adds: failures of that rule, and none exactly when it
passes. -/
def Reports (source : String) (x : TestM Bool) : Prop :=
  ∀ v, ∃ r w ds, Records x v r w ds ∧ (∀ passed, r = .ok passed → (passed = true ↔ ds = [])) ∧
    ∀ d ∈ ds, ∃ kind u detail, d = .failed kind source u detail

namespace Reports

variable {source : String} {x y : TestM Bool}

theorem passing (hx : ∀ v, ∃ w, Records x v (.ok true) w []) : Reports source x := by
  intro v
  obtain ⟨w, hw⟩ := hx v
  refine ⟨_, w, [], hw, fun passed h => ?_, nofun⟩
  cases h
  exact ⟨fun _ => rfl, fun _ => rfl⟩

theorem pure_true : Reports source (pure true) := passing fun v => ⟨v, .pure⟩

theorem throw {e : EvalError} : Reports source (MonadExcept.throw e) :=
  fun v => ⟨_, v, [], .throw, nofun, nofun⟩

theorem fail {kind : FailureKind} {detail : String} :
    Reports source (TestM.fail kind source detail) := by
  intro v
  refine ⟨_, v, _, .fail, fun passed h => ?_, fun d hd => ⟨kind, v, detail, ?_⟩⟩
  · cases h
    exact ⟨nofun, nofun⟩
  · rwa [List.mem_singleton] at hd

theorem value_bind {f : Value → TestM Bool} (hf : ∀ v, Reports source (f v)) :
    Reports source (TestM.value >>= f) := by
  intro v
  obtain ⟨r, w, ds, h, hds⟩ := hf v v
  exact ⟨r, w, ds, Records.value.bind h, hds⟩

/-- Both tests are made, whatever the first says. -/
theorem and (hx : Reports source x) (hy : Reports source y) :
    Reports source (do
      let p ← x
      let q ← y
      return p && q) := by
  intro v
  obtain ⟨e | p, w, ds, hds, hp, hsource⟩ := hx v
  · exact ⟨_, w, ds, hds.bind_error, nofun, hsource⟩
  obtain ⟨r, u, ds', hds', hq, hsource'⟩ := hy w
  have hmem : ∀ d ∈ ds ++ ds', ∃ kind u detail, d = .failed kind source u detail := by
    intro d hd
    rcases List.mem_append.1 hd with hd | hd
    · exact hsource d hd
    · exact hsource' d hd
  rcases r with e | q
  · exact ⟨_, u, ds ++ ds', hds.bind hds'.bind_error, nofun, hmem⟩
  · refine ⟨.ok (p && q), u, ds ++ (ds' ++ []), hds.bind (hds'.bind .pure), ?_, ?_⟩
    · intro passed h
      cases h
      rw [Bool.and_eq_true, List.append_nil, List.append_eq_nil_iff, hp p rfl, hq q rfl]
    · rwa [List.append_nil]

end Reports

namespace Bracket

variable {b : Bracket} {lookup : Option Lookup}

theorem testOperand_reports : Reports b.source b.testOperand := by
  refine Reports.value_bind fun v => ?_
  split
  · exact .pure_true
  · split
    · exact .pure_true
    · exact .fail

theorem testModifier_reports {m : Modifier} : Reports b.source (b.testModifier lookup m) := by
  refine Reports.value_bind fun v => ?_
  split
  · exact .throw
  · exact .pure_true
  · exact .passing fun _ => ⟨_, Records.replaced.bind .pure⟩
  · exact .fail

theorem testModifiers_reports {ms : List Modifier} :
    Reports b.source (b.testModifiers lookup ms) := by
  induction ms with
  | nil => exact .pure_true
  | cons m ms ih => exact testModifier_reports.and ih

/-- A bracket records failures of its own, and none exactly when it passes. -/
theorem test_reports (b : Bracket) (lookup : Option Lookup) : Reports b.source (b.test lookup) :=
  testOperand_reports.and testModifiers_reports

end Bracket

/-! ## Trials -/

/-- What testing a bracket gave. -/
structure BracketTrial where
  bracket : Bracket
  passed : Bool
  /-- The failures that it recorded. -/
  recorded : List Diagnostic

/-- A rule with what testing its brackets gave. -/
inductive Trial where
  | bracket (t : BracketTrial)
  | node (source : String) (span : Span) (groups : List (GroupOf Trial))

/-- A bracket under the verdicts of the nodes and groups around it, from the outermost on. -/
structure PlacedTrial where
  around : List Bool
  trial : BracketTrial

namespace PlacedTrial

/-- Puts another verdict around. -/
def under (verdict : Bool) (x : PlacedTrial) : PlacedTrial :=
  { x with around := verdict :: x.around }

/-- Whether every node and group around failed. -/
def isExposed (x : PlacedTrial) : Bool := x.around.all (!·)

/-- The failures of the brackets around which all failed. -/
def kept (xs : List PlacedTrial) : List Diagnostic :=
  (xs.filter isExposed).flatMap (·.trial.recorded)

theorem kept_singleton (t : BracketTrial) : kept [⟨[], t⟩] = t.recorded := List.append_nil _

theorem kept_append (xs ys : List PlacedTrial) : kept (xs ++ ys) = kept xs ++ kept ys := by
  rw [kept, List.filter_append, List.flatMap_append, kept, kept]

theorem kept_under (verdict : Bool) (xs : List PlacedTrial) :
    kept (xs.map (under verdict)) = if verdict then [] else kept xs := by
  cases verdict with
  | false =>
    rw [kept, List.filter_map, List.flatMap_map]
    rfl
  | true =>
    have hnone : (xs.map (under true)).filter isExposed = [] := by
      rw [List.filter_eq_nil_iff]
      intro x hx
      obtain ⟨y, -, rfl⟩ := List.mem_map.1 hx
      exact Bool.false_ne_true
    rw [kept, hnone]
    rfl

theorem map_trial_under (verdict : Bool) (xs : List PlacedTrial) :
    (xs.map (under verdict)).map trial = xs.map trial := by
  rw [List.map_map]
  rfl

end PlacedTrial

namespace Trial

mutual

/-- The rule that was tested. -/
def rule : Trial → Rule
  | .bracket t => .bracket t.bracket
  | .node source span groups => .node source span (groupsRule groups)

def groupsRule : List (GroupOf Trial) → List (GroupOf Rule)
  | [] => []
  | g :: gs => groupRule g :: groupsRule gs

def groupRule : GroupOf Trial → GroupOf Rule
  | ⟨join, members⟩ => ⟨join, membersRule members⟩

def membersRule : List Trial → List Rule
  | [] => []
  | t :: ts => rule t :: membersRule ts

end

mutual

/-- The verdict, which the joins make of those on the brackets. -/
def passed (mode : OrMode) : Trial → Bool
  | .bracket t => t.passed
  | .node _ _ groups => groupsPassed mode groups

def groupsPassed (mode : OrMode) : List (GroupOf Trial) → Bool
  | [] => true
  | g :: gs => groupPassed mode g && groupsPassed mode gs

def groupPassed (mode : OrMode) : GroupOf Trial → Bool
  | ⟨join, members⟩ => join.truth mode (membersPassed mode members)

def membersPassed (mode : OrMode) : List Trial → List Bool
  | [] => []
  | t :: ts => passed mode t :: membersPassed mode ts

end

open PlacedTrial

mutual

/-- The brackets in the order in which they are tested, under the verdicts around them. -/
def brackets (mode : OrMode) : Trial → List PlacedTrial
  | .bracket t => [⟨[], t⟩]
  | .node _ _ groups => (groupsBrackets mode groups).map (under (groupsPassed mode groups))

def groupsBrackets (mode : OrMode) : List (GroupOf Trial) → List PlacedTrial
  | [] => []
  | g :: gs => groupBrackets mode g ++ groupsBrackets mode gs

def groupBrackets (mode : OrMode) : GroupOf Trial → List PlacedTrial
  | ⟨join, members⟩ =>
    (membersBrackets mode members).map (under (groupPassed mode ⟨join, members⟩))

def membersBrackets (mode : OrMode) : List Trial → List PlacedTrial
  | [] => []
  | t :: ts => brackets mode t ++ membersBrackets mode ts

end

end Trial

/-- Brackets tested one after the other, each on the value that the one before left. -/
inductive Tested (lookup : Option Lookup) : Value → List BracketTrial → Value → Prop
  | nil {v} : Tested lookup v [] v
  | cons {v t w ts u} : outcome (t.bracket.test lookup) ⟨v, []⟩ = (.ok t.passed, ⟨w, t.recorded⟩) →
      Tested lookup w ts u → Tested lookup v (t :: ts) u

theorem Tested.append {lookup : Option Lookup} {v w u : Value} {ts ts' : List BracketTrial}
    (h : Tested lookup v ts w) (h' : Tested lookup w ts' u) : Tested lookup v (ts ++ ts') u := by
  induction h with
  | nil => exact h'
  | cons ht _ ih => exact .cons ht (ih h')

/-- The brackets that were tested recorded failures of their own, and none exactly when they
passed. -/
theorem Tested.reports {lookup : Option Lookup} {v w : Value} {ts : List BracketTrial}
    (h : Tested lookup v ts w) : ∀ t ∈ ts, (t.passed = true ↔ t.recorded = []) ∧
      ∀ d ∈ t.recorded, ∃ kind u detail, d = .failed kind t.bracket.source u detail := by
  induction h with
  | nil => nofun
  | @cons v t w ts u ht _ ih =>
    intro t' ht'
    rcases List.mem_cons.1 ht' with rfl | ht'
    · obtain ⟨r, w', ds, hds, hpassed, hsource⟩ := t'.bracket.test_reports lookup v
      have heq := (hds []).symm.trans ht
      rw [List.nil_append, Prod.mk.injEq, TestState.mk.injEq] at heq
      obtain ⟨rfl, -, rfl⟩ := heq
      exact ⟨hpassed _ rfl, hsource⟩
    · exact ih t' ht'

/-- The brackets account for a test that led from one state to another: they were tested from the
value before to the value after, and what they keep was added. -/
structure Accounts (lookup : Option Lookup) (xs : List PlacedTrial) (s t : TestState) : Prop where
  tested : Tested lookup s.value (xs.map PlacedTrial.trial) t.value
  diagnostics : t.diagnostics = s.diagnostics ++ PlacedTrial.kept xs

namespace Accounts

open PlacedTrial

variable {lookup : Option Lookup} {xs ys : List PlacedTrial} {s t u : TestState}

theorem nil : Accounts lookup [] s s := ⟨.nil, (List.append_nil _).symm⟩

theorem append (h : Accounts lookup xs s t) (h' : Accounts lookup ys t u) :
    Accounts lookup (xs ++ ys) s u where
  tested := by
    rw [List.map_append]
    exact h.tested.append h'.tested
  diagnostics := by rw [h'.diagnostics, h.diagnostics, kept_append, List.append_assoc]

/-- A verdict around takes back what was added, if it is a pass. -/
theorem under (h : Accounts lookup xs s t) (verdict : Bool) :
    Accounts lookup (xs.map (PlacedTrial.under verdict)) s
      (if verdict then t.truncate s.mark else t) := by
  constructor
  · rw [map_trial_under]
    cases verdict <;> exact h.tested
  · rw [kept_under]
    cases verdict with
    | false => exact h.diagnostics
    | true =>
      show t.diagnostics.take s.diagnostics.length = _
      rw [h.diagnostics, List.take_left]
      exact (List.append_nil _).symm

end Accounts

theorem TestM.outcome_quietIfPassed_ok {x : TestM Bool} {s t : TestState} {passed : Bool}
    (h : outcome (quietIfPassed x) s = (.ok passed, t)) :
    ∃ u, outcome x s = (.ok passed, u) ∧ t = if passed then u.truncate s.mark else u := by
  rw [outcome_quietIfPassed] at h
  generalize outcome x s = r at h ⊢
  obtain ⟨e | p, u⟩ := r
  · cases h
  · cases p <;> cases h <;> exact ⟨_, rfl, rfl⟩

namespace Rule

variable {ev : Evaluator}

theorem bracket_accounts {b : Bracket} {s t : TestState} {p : Bool}
    (h : outcome (b.test ev.lookup) s = (.ok p, t)) :
    ∃ recorded, Accounts ev.lookup [⟨[], b, p, recorded⟩] s t := by
  obtain ⟨r, w, ds, hds, -⟩ := b.test_reports ev.lookup s.value
  have hs := hds s.diagnostics
  rw [h] at hs
  cases hs
  exact ⟨ds, .cons (hds []) .nil, by rw [PlacedTrial.kept_singleton]⟩

mutual

theorem test_accounts : ∀ (r : Rule) (depth : Nat) (s t : TestState) (p : Bool),
    outcome (test ev r depth) s = (.ok p, t) → ∃ trial : Trial, trial.rule = r ∧
      trial.passed ev.config.orMode = p ∧ Accounts ev.lookup (trial.brackets ev.config.orMode) s t
  | .bracket b, depth, s, t, p, h => by
    obtain ⟨recorded, haccounts⟩ := bracket_accounts h
    exact ⟨.bracket ⟨b, p, recorded⟩, rfl, rfl, haccounts⟩
  | .node source span groups, depth, s, t, p, h => by
    rw [test] at h
    split at h
    · cases h
    · obtain ⟨u, hu, rfl⟩ := TestM.outcome_quietIfPassed_ok h
      obtain ⟨trials, rfl, rfl, haccounts⟩ := testGroups_accounts groups (depth + 1) s u p hu
      exact ⟨.node source span trials, rfl, rfl, haccounts.under _⟩

theorem testGroups_accounts : ∀ (gs : List (GroupOf Rule)) (depth : Nat) (s t : TestState)
    (p : Bool), outcome (testGroups ev gs depth) s = (.ok p, t) →
      ∃ trials : List (GroupOf Trial), Trial.groupsRule trials = gs ∧
        Trial.groupsPassed ev.config.orMode trials = p ∧
        Accounts ev.lookup (Trial.groupsBrackets ev.config.orMode trials) s t
  | [], depth, s, t, p, h => by
    cases h
    exact ⟨[], rfl, rfl, .nil⟩
  | g :: gs, depth, s, t, p, h => by
    rw [testGroups] at h
    obtain ⟨pg, u, hg, h⟩ := outcome_bind_ok_iff.1 h
    obtain ⟨pgs, u', hgs, h⟩ := outcome_bind_ok_iff.1 h
    cases h
    obtain ⟨trial, rfl, rfl, haccounts⟩ := testGroup_accounts g depth s u pg hg
    obtain ⟨trials, rfl, rfl, haccounts'⟩ := testGroups_accounts gs depth u t pgs hgs
    exact ⟨trial :: trials, rfl, rfl, haccounts.append haccounts'⟩

theorem testGroup_accounts : ∀ (g : GroupOf Rule) (depth : Nat) (s t : TestState) (p : Bool),
    outcome (testGroup ev g depth) s = (.ok p, t) →
      ∃ trial : GroupOf Trial, Trial.groupRule trial = g ∧
        Trial.groupPassed ev.config.orMode trial = p ∧
        Accounts ev.lookup (Trial.groupBrackets ev.config.orMode trial) s t
  | ⟨join, members⟩, depth, s, t, p, h => by
    rw [testGroup] at h
    obtain ⟨u, hu, rfl⟩ := TestM.outcome_quietIfPassed_ok h
    obtain ⟨results, u', hmembers, hu⟩ := outcome_bind_ok_iff.1 hu
    cases hu
    obtain ⟨trials, rfl, rfl, haccounts⟩ := testMembers_accounts members depth s u results hmembers
    rw [Join.resolve_eq_truth]
    exact ⟨⟨join, trials⟩, rfl, rfl, haccounts.under _⟩

theorem testMembers_accounts : ∀ (rs : List Rule) (depth : Nat) (s t : TestState)
    (ps : List Bool), outcome (testMembers ev rs depth) s = (.ok ps, t) →
      ∃ trials : List Trial, Trial.membersRule trials = rs ∧
        Trial.membersPassed ev.config.orMode trials = ps ∧
        Accounts ev.lookup (Trial.membersBrackets ev.config.orMode trials) s t
  | [], depth, s, t, ps, h => by
    cases h
    exact ⟨[], rfl, rfl, .nil⟩
  | r :: rs, depth, s, t, ps, h => by
    rw [testMembers] at h
    obtain ⟨p, u, hr, h⟩ := outcome_bind_ok_iff.1 h
    obtain ⟨qs, u', hrs, h⟩ := outcome_bind_ok_iff.1 h
    cases h
    obtain ⟨trial, rfl, rfl, haccounts⟩ := test_accounts r depth s u p hr
    obtain ⟨trials, rfl, rfl, haccounts'⟩ := testMembers_accounts rs depth u t qs hrs
    exact ⟨trial :: trials, rfl, rfl, haccounts.append haccounts'⟩

end

end Rule

/-- A trial that passed keeps nothing. -/
theorem Trial.kept_of_passed {lookup : Option Lookup} {mode : OrMode} {v w : Value} {trial : Trial}
    (h : Tested lookup v ((trial.brackets mode).map PlacedTrial.trial) w)
    (hpassed : trial.passed mode = true) : PlacedTrial.kept (trial.brackets mode) = [] := by
  cases trial with
  | bracket t =>
    rw [brackets, PlacedTrial.kept_singleton]
    exact (h.reports t (List.mem_singleton_self t)).1.1 hpassed
  | node source span groups =>
    rw [passed] at hpassed
    rw [brackets, PlacedTrial.kept_under, if_pos hpassed]

/-- A test that ends well keeps what was recorded before.  It adds the failures of those brackets
around which every node and group failed, in the order of the brackets, and nothing when it
passes. -/
theorem Rule.test_diagnostics {ev : Evaluator} {r : Rule} {depth : Nat} {s t : TestState}
    {passed : Bool} (h : outcome (r.test ev depth) s = (.ok passed, t)) :
    (∃ trial : Trial, trial.rule = r ∧ trial.passed ev.config.orMode = passed ∧
      Tested ev.lookup s.value ((trial.brackets ev.config.orMode).map PlacedTrial.trial) t.value ∧
      t.diagnostics = s.diagnostics ++ PlacedTrial.kept (trial.brackets ev.config.orMode)) ∧
    (passed = true → t.diagnostics = s.diagnostics) := by
  obtain ⟨trial, hrule, hpassed, haccounts⟩ := test_accounts r depth s t passed h
  refine ⟨⟨trial, hrule, hpassed, haccounts.tested, haccounts.diagnostics⟩, fun htrue => ?_⟩
  have hnone := Trial.kept_of_passed haccounts.tested (hpassed.trans htrue)
  rw [haccounts.diagnostics, hnone, List.append_nil]

/-- `[|u]&&([|u]||[|l])` on a text in lower case, when a failure was recorded before.  Both brackets
for upper case fail; the or-group around the second passes. -/
theorem Rule.test_diagnostics_lower_case :
    let upper : Bracket := ⟨"[|u]", ⟨0, 4⟩, .none, none, [.upper], ModifierCode.upper.flag, false⟩
    let lower : Bracket := ⟨"[|l]", ⟨0, 4⟩, .none, none, [.lower], ModifierCode.lower.flag, false⟩
    let either : Rule := .node "[|u]||[|l]" ⟨0, 10⟩ [⟨.or, [.bracket upper, .bracket lower]⟩]
    let r : Rule := .node "[|u]&&([|u]||[|l])" ⟨0, 18⟩ [⟨.and, [.bracket upper, either]⟩]
    let before := Diagnostic.failed .required "[|r]" .null "a value is required"
    ∃ trial : Trial, trial.rule = r ∧ trial.passed .anyTrue = false ∧
      PlacedTrial.kept (trial.brackets .anyTrue) =
        [.failed .notUppercase "[|u]" (.text "ab") "text is not upper case"] ∧
      (outcome (r.test { config := { orMode := .anyTrue } } 0) ⟨.text "ab", [before]⟩).2 =
        ⟨.text "ab",
          [before, .failed .notUppercase "[|u]" (.text "ab") "text is not upper case"]⟩ := by
  intro upper lower either r before
  have h : outcome (r.test { config := { orMode := .anyTrue } } 0) ⟨.text "ab", [before]⟩ =
      (.ok false, ⟨.text "ab",
        [before, .failed .notUppercase "[|u]" (.text "ab") "text is not upper case"]⟩) := rfl
  obtain ⟨⟨trial, hrule, hpassed, -, hds⟩, -⟩ := test_diagnostics h
  exact ⟨trial, hrule, hpassed, (List.cons.inj hds).2.symm, congrArg Prod.snd h⟩

end Rulebook
