import Rulebook.Proofs.Evaluation.Trial

/-!
# Reasons of a rejection

A value that is rejected comes with a failed diagnostic and a message.  There is one exception,
where an or-group passes by a member that fails: when all its members pass, the group is rejected
and none of them recorded anything.

    rejected  →  a failed diagnostic,
                 or every bracket around which all failed passed, and so did all members of an
                 or-group
-/

namespace Rulebook

/-! ## Messages -/

theorem Text.join_ne_empty {sep : String} {parts : List String} (h : ∃ p ∈ parts, p ≠ "") :
    join sep parts ≠ "" := by
  induction parts with
  | nil => simp at h
  | cons p parts ih =>
    cases parts with
    | nil => simpa [join] using h
    | cons q parts =>
      intro hempty
      rw [join, String.intercalate_cons_cons, String.append_eq_empty_iff,
        String.append_eq_empty_iff] at hempty
      obtain ⟨⟨hp, -⟩, hrest⟩ := hempty
      obtain ⟨r, hr, hne⟩ := h
      rcases List.mem_cons.1 hr with rfl | hr
      · exact hne hp
      · exact ih ⟨r, hr, hne⟩ hrest

theorem Diagnostic.message_failed_ne_empty {kind : FailureKind} {rule detail : String} {v : Value} :
    (failed kind rule v detail).message ≠ "" := by
  simp [failed, String.append_eq_empty_iff]

/-- A failed diagnostic with a message is shown. -/
theorem Evaluation.showMessages_ne_empty {o : Evaluation} {d : Diagnostic}
    (hd : d ∈ o.diagnostics) (hfailed : d.passed = false) (hmessage : d.message ≠ "")
    (html : Bool) : o.showMessages html ≠ "" := by
  have hmem : d.message ∈ Diagnostic.messages o.diagnostics :=
    List.mem_map.2 ⟨d, List.mem_filter.2 ⟨hd, by simp [hfailed]⟩, rfl⟩
  cases html with
  | false => exact Text.join_ne_empty ⟨_, hmem, hmessage⟩
  | true =>
    have hsome : (Diagnostic.messages o.diagnostics).isEmpty = false :=
      List.isEmpty_eq_false_iff.2 (List.ne_nil_of_mem hmem)
    simp [showMessages, Rulebook.showMessages, hsome, String.append_eq_empty_iff]

/-! ## Rejected groups -/

/-- A group that fails has a member that fails, unless it is an or-group that wants one. -/
theorem Join.truth_eq_false {join : Join} {mode : OrMode} {bs : List Bool}
    (h : join.truth mode bs = false) :
    false ∈ bs ∧ (join = .and ∨ mode = .anyTrue) ∨
      join = .or ∧ mode = .anyFalse ∧ bs ≠ [] ∧ ∀ b ∈ bs, b = true := by
  cases bs with
  | nil => cases h
  | cons b bs =>
    cases join with
    | and =>
      obtain ⟨b', hb', hne⟩ := List.all_eq_false.1 h
      obtain rfl : b' = false := by simpa using hne
      exact .inl ⟨hb', .inl rfl⟩
    | or =>
      cases mode with
      | anyFalse => exact .inr ⟨rfl, rfl, List.cons_ne_nil b bs, by simpa [truth] using h⟩
      | anyTrue =>
        have hb : b = false := by
          simp only [truth, List.any_cons, Bool.or_eq_false_iff, decide_eq_false_iff_not] at h
          exact Bool.eq_false_iff.2 h.1
        exact .inl ⟨by simp [hb], .inr rfl⟩

namespace Trial

open PlacedTrial

mutual

/-- Reached through and-groups only, there is an or-group that has members, all of which pass. -/
def Unanimous : Trial → Prop
  | .bracket _ => False
  | .node _ _ groups => GroupsUnanimous groups

def GroupsUnanimous : List (GroupOf Trial) → Prop
  | [] => False
  | g :: gs => GroupUnanimous g ∨ GroupsUnanimous gs

def GroupUnanimous : GroupOf Trial → Prop
  | ⟨.and, members⟩ => MembersUnanimous members
  | ⟨.or, members⟩ =>
    membersPassed .anyFalse members ≠ [] ∧ ∀ b ∈ membersPassed .anyFalse members, b = true

def MembersUnanimous : List Trial → Prop
  | [] => False
  | t :: ts => Unanimous t ∨ MembersUnanimous ts

end

variable {mode : OrMode}

/-- A bracket that failed recorded something. -/
def Told (xs : List PlacedTrial) : Prop :=
  ∀ x ∈ xs, x.trial.passed = false → x.trial.recorded ≠ []

theorem told_append {xs ys : List PlacedTrial} : Told (xs ++ ys) ↔ Told xs ∧ Told ys := by
  simp only [Told, List.mem_append, or_imp, forall_and]

theorem told_under {verdict : Bool} {xs : List PlacedTrial} :
    Told (xs.map (under verdict)) ↔ Told xs :=
  ⟨fun h x hx => h (under verdict x) (List.mem_map_of_mem hx), fun h y hy => by
    obtain ⟨x, hx, rfl⟩ := List.mem_map.1 hy
    exact h x hx⟩

/-- Something is kept, or the rejection can be one without a reason. -/
def Explained (mode : OrMode) (xs : List PlacedTrial) (unanimous : Prop) : Prop :=
  kept xs ≠ [] ∨ mode = .anyFalse ∧ unanimous

theorem Explained.append_left {xs ys : List PlacedTrial} {p q : Prop} (h : Explained mode xs p) :
    Explained mode (xs ++ ys) (p ∨ q) := by
  rcases h with h | ⟨hmode, hp⟩
  · exact .inl (by simp [kept_append, h])
  · exact .inr ⟨hmode, .inl hp⟩

theorem Explained.append_right {xs ys : List PlacedTrial} {p q : Prop} (h : Explained mode ys q) :
    Explained mode (xs ++ ys) (p ∨ q) := by
  rcases h with h | ⟨hmode, hq⟩
  · exact .inl (by simp [kept_append, h])
  · exact .inr ⟨hmode, .inr hq⟩

theorem Explained.under {xs : List PlacedTrial} {p : Prop} (h : Explained mode xs p) :
    Explained mode (xs.map (PlacedTrial.under false)) p := by
  rwa [Explained, kept_under]

mutual

theorem explained_of_failed : ∀ t : Trial, Told (t.brackets mode) → t.passed mode = false →
    Explained mode (t.brackets mode) t.Unanimous
  | .bracket t, htold, hfailed => by
    have hrecorded := htold ⟨[], t⟩ (List.mem_singleton_self _) hfailed
    exact .inl (by rwa [brackets, kept_singleton])
  | .node source span groups, htold, hfailed => by
    rw [passed] at hfailed
    rw [brackets, told_under] at htold
    rw [brackets, hfailed, Unanimous]
    exact (groups_explained_of_failed groups htold hfailed).under

theorem groups_explained_of_failed : ∀ gs : List (GroupOf Trial), Told (groupsBrackets mode gs) →
    groupsPassed mode gs = false → Explained mode (groupsBrackets mode gs) (GroupsUnanimous gs)
  | [], _, hfailed => by cases hfailed
  | g :: gs, htold, hfailed => by
    rw [groupsBrackets, told_append] at htold
    rw [groupsPassed, Bool.and_eq_false_iff] at hfailed
    rw [groupsBrackets, GroupsUnanimous]
    rcases hfailed with hg | hgs
    · exact (group_explained_of_failed g htold.1 hg).append_left
    · exact (groups_explained_of_failed gs htold.2 hgs).append_right

theorem group_explained_of_failed : ∀ g : GroupOf Trial, Told (groupBrackets mode g) →
    groupPassed mode g = false → Explained mode (groupBrackets mode g) (GroupUnanimous g)
  | ⟨join, members⟩, htold, hfailed => by
    rw [groupBrackets, told_under] at htold
    rw [groupBrackets, hfailed]
    refine Explained.under ?_
    rw [groupPassed] at hfailed
    rcases Join.truth_eq_false hfailed with ⟨hmember, hjoin⟩ | ⟨rfl, rfl, hall⟩
    · have hmembers := members_explained_of_failed members htold hmember
      rcases hjoin with rfl | rfl
      · exact hmembers
      · exact hmembers.imp_right fun h => nomatch h.1
    · exact .inr ⟨rfl, hall⟩

theorem members_explained_of_failed : ∀ ts : List Trial, Told (membersBrackets mode ts) →
    false ∈ membersPassed mode ts → Explained mode (membersBrackets mode ts) (MembersUnanimous ts)
  | [], _, hfailed => by cases hfailed
  | t :: ts, htold, hfailed => by
    rw [membersBrackets, told_append] at htold
    rw [membersPassed, List.mem_cons] at hfailed
    rw [membersBrackets, MembersUnanimous]
    rcases hfailed with ht | hts
    · exact (explained_of_failed t htold.1 ht.symm).append_left
    · exact (members_explained_of_failed ts htold.2 hts).append_right

end

end Trial

/-- Nothing is kept exactly where every bracket around which all failed passed itself. -/
theorem PlacedTrial.kept_eq_nil_iff {lookup : Option Lookup} {v w : Value} {xs : List PlacedTrial}
    (h : Tested lookup v (xs.map trial) w) :
    kept xs = [] ↔ ∀ x ∈ xs, x.isExposed = true → x.trial.passed = true := by
  rw [kept, List.flatMap_eq_nil_iff]
  constructor
  · intro hnone x hx hexposed
    have hrecorded := hnone x (List.mem_filter.2 ⟨hx, hexposed⟩)
    exact (h.reports x.trial (List.mem_map_of_mem hx)).1.2 hrecorded
  · intro hpassed x hx
    obtain ⟨hx, hexposed⟩ := List.mem_filter.1 hx
    exact (h.reports x.trial (List.mem_map_of_mem hx)).1.1 (hpassed x hx hexposed)

/-- Under every configuration a rejected value comes with a failed diagnostic, which is shown.  The
one exception is where an or-group passes by a member that fails: there is no diagnostic when every
bracket around which all failed passed itself, and then all members of an or-group pass. -/
theorem Rule.exists_failed_of_rejected {ev : Evaluator} {r : Rule} {v : Value} {o : Evaluation}
    (h : r.evaluate ev v = .ok o) (hrejected : o.passed = false) :
    ((∃ d ∈ o.diagnostics, d.passed = false) ∧ ∀ html, o.showMessages html ≠ "") ∨
      o.diagnostics = [] ∧ ev.config.orMode = .anyFalse ∧ ∃ trial : Trial, trial.rule = r ∧
        trial.passed .anyFalse = false ∧
        Tested ev.lookup v ((trial.brackets .anyFalse).map PlacedTrial.trial) o.value ∧
        (∀ x ∈ trial.brackets .anyFalse, x.isExposed = true → x.trial.passed = true) ∧
        trial.Unanimous := by
  obtain ⟨trial, hrule, hpassed, haccounts⟩ := test_accounts r 0 _ _ _ (evaluate_eq_ok h)
  have hreports := haccounts.tested.reports
  have hdiagnostics : o.diagnostics = PlacedTrial.kept (trial.brackets ev.config.orMode) :=
    haccounts.diagnostics
  by_cases hkept : PlacedTrial.kept (trial.brackets ev.config.orMode) = []
  · right
    have htold : Trial.Told (trial.brackets ev.config.orMode) := by
      intro x hx hfailed hnone
      have htrue := (hreports x.trial (List.mem_map_of_mem hx)).1.2 hnone
      exact Bool.false_ne_true (hfailed.symm.trans htrue)
    have hexplained := Trial.explained_of_failed trial htold (hpassed.trans hrejected)
    obtain ⟨hmode, hall⟩ := hexplained.resolve_left (not_not_intro hkept)
    have hexposed := (PlacedTrial.kept_eq_nil_iff haccounts.tested).1 hkept
    rw [hmode] at haccounts hpassed hexposed
    exact ⟨hdiagnostics.trans hkept, hmode, trial, hrule, hpassed.trans hrejected,
      haccounts.tested, hexposed, hall⟩
  · left
    obtain ⟨d, hd⟩ := List.exists_mem_of_ne_nil _ hkept
    obtain ⟨x, hx, hdx⟩ := List.mem_flatMap.1 hd
    obtain ⟨-, hfailures⟩ := hreports x.trial (List.mem_map_of_mem (List.mem_filter.1 hx).1)
    obtain ⟨kind, u, detail, rfl⟩ := hfailures d hdx
    rw [← hdiagnostics] at hd
    exact ⟨⟨_, hd, rfl⟩,
      Evaluation.showMessages_ne_empty hd rfl Diagnostic.message_failed_ne_empty⟩

/-- `[|u]||([|u]&&[|l])` on a text in lower case, where an or-group passes by a member that
passes. -/
theorem Rule.exists_failed_of_rejected_lower_case :
    let upper : Bracket := ⟨"[|u]", ⟨0, 4⟩, .none, none, [.upper], ModifierCode.upper.flag, false⟩
    let lower : Bracket := ⟨"[|l]", ⟨0, 4⟩, .none, none, [.lower], ModifierCode.lower.flag, false⟩
    let both : Rule := .node "[|u]&&[|l]" ⟨0, 10⟩ [⟨.and, [.bracket upper, .bracket lower]⟩]
    let r : Rule := .node "[|u]||([|u]&&[|l])" ⟨0, 18⟩ [⟨.or, [.bracket upper, both]⟩]
    ∃ o, r.evaluate { config := { orMode := .anyTrue } } (.text "ab") = .ok o ∧ o.passed = false ∧
      (∃ d ∈ o.diagnostics, d.passed = false) ∧ ∀ html, o.showMessages html ≠ "" := by
  intro upper lower both r
  have h : r.evaluate { config := { orMode := .anyTrue } } (.text "ab") = .ok ⟨false, .text "ab",
      [.failed .notUppercase "[|u]" (.text "ab") "text is not upper case",
        .failed .notUppercase "[|u]" (.text "ab") "text is not upper case"]⟩ := rfl
  refine ⟨_, h, rfl, ?_⟩
  rcases exists_failed_of_rejected h rfl with hreason | ⟨-, hmode, -⟩
  · exact hreason
  · cases hmode

/-- A rule may reject a value without a diagnostic: two brackets that both pass, joined by or. -/
theorem Rule.not_exists_failed_of_rejected :
    ¬ ∀ (config : Config) (text : String) (r : Rule), compile config text = .ok r →
      ∀ (ev : Evaluator), ev.config = config → ∀ (v : Value) (o : Evaluation),
        r.evaluate ev v = .ok o → o.passed = false →
          (∃ d ∈ o.diagnostics, d.passed = false) ∧ ∀ html, o.showMessages html ≠ "" := by
  intro hreasons
  have hevaluated : ((compile {} "[|r]||[|r]").toOption.bind fun r =>
      (r.evaluate {} (.text "a")).toOption.map fun o => (o.passed, o.diagnostics)) =
        some (false, []) := by decide +kernel
  obtain ⟨r, hr, hevaluated⟩ := Option.bind_eq_some_iff.1 hevaluated
  obtain ⟨o, ho, hends⟩ := Option.map_eq_some_iff.1 hevaluated
  obtain ⟨hpassed, hnone⟩ := Prod.mk.inj hends
  obtain ⟨⟨d, hd, -⟩, -⟩ := hreasons {} _ r (eq_ok_of_toOption hr) {} rfl (.text "a") o
    (eq_ok_of_toOption ho) hpassed
  rw [hnone] at hd
  cases hd

end Rulebook
