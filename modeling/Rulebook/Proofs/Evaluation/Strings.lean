import Rulebook.Proofs.Evaluation.Mended
import Rulebook.Proofs.Value.Json

/-!
# Brackets on JSON strings

A JSON string is a text, or a date where it reads as one.  The modifiers that ask about a text apply
to every text, and what they make of one is a text again; to a date only some of them apply:

    u l mx mn e      refuse dates
    i in r           apply to every value

So a bracket with these modifiers gives an evaluation of every JSON string, unless the string reads
as a date and one of the modifiers refuses it (`evaluate_string`).
-/

namespace Rulebook

variable {α β : Type}

/-! ## Tests that return -/

/-- From values that `I` holds of, a computation returns, and leaves such a value. -/
def Returns (I : Value → Prop) (x : TestM α) : Prop :=
  ∀ s : TestState, I s.value → ∃ a t, outcome x s = (.ok a, t) ∧ I t.value

namespace Returns

variable {I : Value → Prop} {x : TestM α} {f : α → TestM β}

theorem pure {a : α} : Returns I (Pure.pure a) := fun s hs => ⟨a, s, rfl, hs⟩

theorem fail {kind : FailureKind} {rule detail : String} :
    Returns I (TestM.fail kind rule detail) :=
  fun _ hs => ⟨false, _, rfl, hs⟩

theorem bind (hx : Returns I x) (hf : ∀ a, Returns I (f a)) : Returns I (x >>= f) := by
  intro s hs
  obtain ⟨a, t, hat, ht⟩ := hx s hs
  obtain ⟨b, u, hbu, hu⟩ := hf a t ht
  exact ⟨b, u, outcome_bind_ok_iff.2 ⟨a, t, hat, hbu⟩, hu⟩

theorem value_bind {f : Value → TestM β} (hf : ∀ v, I v → Returns I (f v)) :
    Returns I (TestM.value >>= f) := by
  intro s hs
  obtain ⟨b, t, hbt, ht⟩ := hf s.value hs s hs
  exact ⟨b, t, outcome_bind_ok_iff.2 ⟨s.value, s, rfl, hbt⟩, ht⟩

end Returns

/-- From values that `I` holds of, a computation raises the error. -/
def Refuses (I : Value → Prop) (e : EvalError) (x : TestM α) : Prop :=
  ∀ s : TestState, I s.value → (outcome x s).1 = .error e

namespace Refuses

variable {I : Value → Prop} {e : EvalError} {x : TestM α} {f : α → TestM β}

theorem throw : Refuses I e (MonadExcept.throw e : TestM α) := fun _ _ => rfl

theorem value_bind {f : Value → TestM β} (hf : ∀ v, I v → Refuses I e (f v)) :
    Refuses I e (TestM.value >>= f) := by
  intro s hs
  rw [outcome_bind]
  exact hf s.value hs s hs

theorem bind (hx : Refuses I e x) : Refuses I e (x >>= f) := by
  intro s hs
  have hraised := hx s hs
  rw [outcome_bind]
  generalize outcome x s = r at hraised ⊢
  obtain ⟨a, t⟩ := r
  obtain rfl : a = .error e := hraised
  rfl

theorem bind_of_returns (hx : Returns I x) (hf : ∀ a, Refuses I e (f a)) :
    Refuses I e (x >>= f) := by
  intro s hs
  obtain ⟨a, t, hat, ht⟩ := hx s hs
  rw [outcome_bind, hat]
  exact hf a t ht

end Refuses

namespace Modifier

variable {m : Modifier} {s : CheckSetting} {I : Value → Prop}

/-- On values that `I` holds of, a modifier gives a verdict, and mends them to such values. -/
def Applies (I : Value → Prop) (s : CheckSetting) (m : Modifier) : Prop :=
  ∀ v, I v → ∃ u, m.check s v = .ok u ∧ ∀ w, u = .mended w → I w

end Modifier

namespace Bracket

variable {b : Bracket} {lookup : Option Lookup} {ms : List Modifier} {I : Value → Prop}

theorem testOperand_returns : Returns I b.testOperand := by
  refine .value_bind fun v _ => ?_
  split
  · exact .pure
  · split
    · exact .pure
    · exact .fail

theorem testModifier_returns {m : Modifier}
    (h : m.Applies I ⟨b.force, b.has .ignoreCase, lookup⟩) :
    Returns I (b.testModifier lookup m) := by
  refine .value_bind fun v hv => ?_
  obtain ⟨u, hcheck, hmended⟩ := h v hv
  rw [hcheck]
  cases u with
  | pass => exact .pure
  | mended w => exact fun _ _ => ⟨true, _, rfl, hmended w rfl⟩
  | fail => exact .fail

theorem testModifiers_returns
    (h : ∀ m ∈ ms, m.Applies I ⟨b.force, b.has .ignoreCase, lookup⟩) :
    Returns I (b.testModifiers lookup ms) := by
  induction ms with
  | nil => exact .pure
  | cons m ms ih =>
    rw [List.forall_mem_cons] at h
    exact (testModifier_returns h.1).bind fun _ => (ih h.2).bind fun _ => .pure

/-- A bracket whose modifiers all apply is evaluated without an error. -/
theorem evaluate_of_applies {ev : Evaluator} {v : Value} (hv : I v)
    (h : ∀ m ∈ b.modifiers, m.Applies I ⟨b.force, b.has .ignoreCase, ev.lookup⟩) :
    ∃ o, (Rule.bracket b).evaluate ev v = .ok o := by
  have htest : Returns I (b.test ev.lookup) :=
    testOperand_returns.bind fun _ => (testModifiers_returns h).bind fun _ => .pure
  obtain ⟨passed, t, ht, -⟩ := htest { value := v } hv
  exact ⟨t.finish passed, by rw [Rule.evaluate_eq, Rule.test, ht]; rfl⟩

end Bracket

/-! ## Modifiers of texts -/

namespace ModifierCode

/-- The modifiers that apply to every text. -/
def ofTexts : List ModifierCode :=
  [.upper, .lower, .ignoreCase, .max, .min, .email, .oneOf, .required]

/-- Those of them that do not apply to a date. -/
def refusesDates : ModifierCode → Bool
  | .upper | .lower | .max | .min | .email => true
  | _ => false

end ModifierCode

namespace Modifier

variable {m : Modifier} {s : CheckSetting} {d : Date}

theorem applies_text (h : m.code ∈ ModifierCode.ofTexts) :
    m.Applies (fun v => ∃ t, v = .text t) s := by
  rintro _ ⟨t, rfl⟩
  have hverdict : ∃ u, m.check s (.text t) = .ok u := by
    cases m with
    | inTable | roundUp | roundDown | between => simp [code, ModifierCode.ofTexts] at h
    | _ => exact ⟨_, rfl⟩
  obtain ⟨u, hu⟩ := hverdict
  refine ⟨u, hu, ?_⟩
  rintro w rfl
  cases mends_of_check hu with
  | upper | lower | cutText => exact ⟨_, rfl⟩
  | max hnumber | min hnumber => cases hnumber
  | roundUp | roundDown | between => simp [code, ModifierCode.ofTexts] at h

theorem applies_date (h : m.code ∈ ModifierCode.ofTexts) (haccepts : m.code.refusesDates = false) :
    m.Applies (· = .date d) s := by
  rintro _ rfl
  have hverdict : ∃ u, m.check s (.date d) = .ok u := by
    cases m with
    | ignoreCase | oneOf | required => exact ⟨_, rfl⟩
    | upper | lower | max | min | email => cases haccepts
    | inTable | roundUp | roundDown | between => simp [code, ModifierCode.ofTexts] at h
  obtain ⟨u, hu⟩ := hverdict
  refine ⟨u, hu, ?_⟩
  rintro w rfl
  cases mends_of_check hu with
  | max | min => cases haccepts
  | roundUp | roundDown | between => simp [code, ModifierCode.ofTexts] at h

theorem check_date (h : m.code.refusesDates = true) :
    m.check s (.date d) = .error (.wrongKind m.code .date) := by
  cases m with
  | upper | lower | max | min | email => rfl
  | _ => cases h

end Modifier

/-! ## Brackets of such modifiers -/

namespace Bracket

variable {b : Bracket} {lookup : Option Lookup} {ms : List Modifier} {m : Modifier} {d : Date}

theorem testModifier_refuses (h : m.code.refusesDates = true) :
    Refuses (· = .date d) (.wrongKind m.code .date) (b.testModifier lookup m) := by
  refine .value_bind ?_
  rintro v rfl
  rw [Modifier.check_date h]
  exact .throw

/-- The first modifier that refuses a date ends the test. -/
theorem testModifiers_refuses (h : ∀ m ∈ ms, m.code ∈ ModifierCode.ofTexts)
    (hfirst : ms.find? (·.code.refusesDates) = some m) :
    Refuses (· = .date d) (.wrongKind m.code .date) (b.testModifiers lookup ms) := by
  induction ms with
  | nil => cases hfirst
  | cons n ms ih =>
    rw [List.forall_mem_cons] at h
    rw [List.find?_cons] at hfirst
    split at hfirst
    · next hrefuses =>
      cases hfirst
      exact (testModifier_refuses hrefuses).bind
    · next haccepts =>
      have hn : Returns (· = .date d) (b.testModifier lookup n) :=
        testModifier_returns (Modifier.applies_date h.1 haccepts)
      exact .bind_of_returns hn fun _ => (ih h.2 hfirst).bind

theorem evaluate_of_refuses (ev : Evaluator) (h : ∀ m ∈ b.modifiers, m.code ∈ ModifierCode.ofTexts)
    (hfirst : b.modifiers.find? (·.code.refusesDates) = some m) :
    (Rule.bracket b).evaluate ev (.date d) = .error (.wrongKind m.code .date) := by
  have htest : Refuses (· = .date d) (.wrongKind m.code .date) (b.test ev.lookup) :=
    .bind_of_returns testOperand_returns fun _ => (testModifiers_refuses h hfirst).bind
  rw [Rule.evaluate_eq_error_iff, Rule.test]
  exact htest _ rfl

/-- **On a JSON string** a bracket of such modifiers errs only where the string reads as a date and
a modifier refuses dates; the first of these does. -/
theorem evaluate_string (ev : Evaluator) (b : Bracket) (s : String)
    (h : ∀ m ∈ b.modifiers, m.code ∈ ModifierCode.ofTexts) :
    (∀ d m, Date.read? s.toList = some d → b.modifiers.find? (·.code.refusesDates) = some m →
      (Rule.bracket b).evaluate ev (Value.ofJson (.string s)) =
        .error (.wrongKind m.code .date)) ∧
    (Date.read? s.toList = none ∨ (∀ m ∈ b.modifiers, m.code.refusesDates = false) →
      ∃ o, (Rule.bracket b).evaluate ev (Value.ofJson (.string s)) = .ok o) := by
  rw [Value.ofJson_string]
  constructor
  · intro d m hread hfirst
    rw [hread, Option.elim_some]
    exact evaluate_of_refuses ev h hfirst
  · intro hfine
    cases hread : Date.read? s.toList with
    | none =>
      exact evaluate_of_applies ⟨s, rfl⟩ fun m hm => Modifier.applies_text (h m hm)
    | some d =>
      have haccepts := hfine.resolve_left (by simp [hread])
      rw [Option.elim_some]
      exact evaluate_of_applies (I := (· = .date d)) rfl fun m hm =>
        Modifier.applies_date (h m hm) (haccepts m hm)

/-- `[|i|l|e-f]` on a date whose month has one digit, and on a month that there is not. -/
theorem evaluate_string_month :
    let b : Bracket := ⟨"[|i|l|e-f]", ⟨0, 10⟩, .none, none, [.lower, .ignoreCase, .email], ⟨0x046⟩,
      true⟩
    (∀ m ∈ b.modifiers, m.code ∈ ModifierCode.ofTexts) ∧
      (Rule.bracket b).evaluate {} (Value.ofJson (.string "2024-1-31")) =
        .error (.wrongKind .lower .date) ∧
      ∃ o, (Rule.bracket b).evaluate {} (Value.ofJson (.string "2024-13-31")) = .ok o := by
  intro b
  have hcodes : ∀ m ∈ b.modifiers, m.code ∈ ModifierCode.ofTexts := by decide
  have hread : Date.read? "2024-1-31".toList = some ⟨2024, 1, 31, by decide⟩ := rfl
  have hnone : Date.read? "2024-13-31".toList = none := rfl
  exact ⟨hcodes, (evaluate_string {} b _ hcodes).1 _ _ hread rfl,
    (evaluate_string {} b _ hcodes).2 (.inl hnone)⟩

/-- The bracket that a rule is, when it is no node. -/
def ofRule? : Rule → Option Bracket
  | .bracket b => some b
  | .node .. => none

theorem ofRule?_eq_some_iff {r : Rule} : ofRule? r = some b ↔ r = .bracket b := by
  cases r <;> simp [ofRule?]

/-- A string of ten characters that reads as a date is refused by a limit of ten characters. -/
theorem not_evaluate_string :
    ¬ ∀ (config : Config) (text : String) (b : Bracket),
      Rule.compile config text = .ok (.bracket b) →
      (∀ m ∈ b.modifiers, m.code ∈ ModifierCode.ofTexts) →
        ∀ (ev : Evaluator) (s : String),
          ∃ o, (Rule.bracket b).evaluate ev (Value.ofJson (.string s)) = .ok o := by
  intro hreturns
  have hcompiled : ((Rule.compile {} "[|mx(10)]").toOption.bind ofRule?).map
      (·.modifiers.map Modifier.code) = some [.max] := by decide +kernel
  obtain ⟨b, hb, hcodes⟩ := Option.map_eq_some_iff.1 hcompiled
  obtain ⟨r, hr, hrule⟩ := Option.bind_eq_some_iff.1 hb
  obtain rfl := ofRule?_eq_some_iff.1 hrule
  obtain ⟨m, ms, hmodifiers, hm, hms⟩ := List.map_eq_cons_iff.1 hcodes
  obtain rfl := List.map_eq_nil_iff.1 hms
  have htexts : ∀ n ∈ b.modifiers, n.code ∈ ModifierCode.ofTexts := by
    rw [hmodifiers, List.forall_mem_singleton, hm]
    decide
  have hfirst : b.modifiers.find? (·.code.refusesDates) = some m := by
    rw [hmodifiers, List.find?_cons, hm]
    rfl
  obtain ⟨o, ho⟩ := hreturns {} _ b (eq_ok_of_toOption hr) htexts {} "2024-01-31"
  have hread : Value.ofJson (.string "2024-01-31") = .date ⟨2024, 1, 31, by decide⟩ := rfl
  rw [hread, evaluate_of_refuses {} htexts hfirst] at ho
  cases ho

end Bracket

end Rulebook
