import Rulebook.Proofs.Grammar.Derivation
import Rulebook.Rule.Parse

/-!
# What is compiled

`Rule.compile` reads exactly the texts that the grammar derives, and the rule it returns has the
shape of the derivation.  Each reader has two lemmas:

    read… ts = .ok (x, n)  →  the kinds of the first n tokens derive x           (…_sound)
    ks derives x, ts has the kinds ks ++ rest  →  read… ts = .ok (x, ks.length)  (…_complete)

A part that may be absent is only read to its end when `rest` cannot go on with it.
-/

namespace Rulebook.Grammar

open Rule

/-- There are `n` tokens at the front, and `P` holds of their kinds. -/
def Starts (P : List TokenKind → Prop) (ts : List Token) (n : Nat) : Prop :=
  n ≤ ts.length ∧ P ((ts.take n).map Token.kind)

variable {P Q R : List TokenKind → Prop} {src : RuleSource} {ts : List Token} {n k : Nat}

theorem Starts.zero (h : P []) : Starts P ts 0 := ⟨Nat.zero_le _, by simpa using h⟩

theorem Starts.imp (h : Starts P ts n) (hPQ : ∀ ks, P ks → Q ks) : Starts Q ts n :=
  ⟨h.1, hPQ _ h.2⟩

theorem Starts.cons {t : Token} (h : Starts P ts n) (hQ : ∀ ks, P ks → Q (t.kind :: ks)) :
    Starts Q (t :: ts) (n + 1) :=
  ⟨by simpa using h.1, by simpa using hQ _ h.2⟩

theorem Starts.append (h : Starts P ts n) (h' : Starts Q (ts.drop n) k)
    (hR : ∀ ks ls, P ks → Q ls → R (ks ++ ls)) : Starts R ts (n + k) := by
  obtain ⟨h1, h2⟩ := h
  obtain ⟨h3, h4⟩ := h'
  rw [List.length_drop] at h3
  refine ⟨by omega, ?_⟩
  rw [List.take_add, List.map_append]
  exact hR _ _ h2 h4

/-- One token after the first `n`. -/
theorem Starts.snoc {t : Token} {rest : List Token} (h : Starts P ts n)
    (ht : ts.drop n = t :: rest) (hR : ∀ ks, P ks → R (ks ++ [t.kind])) :
    Starts R ts (n + 1) := by
  refine h.append (Q := fun ls => ls = [t.kind]) (k := 1) ?_ fun ks ls hP hQ => hQ ▸ hR ks hP
  rw [ht]
  exact ⟨by simp, by simp⟩

/-! ## Comparisons -/

theorem readTarget_sound {target : Option Target} (h : readTarget ts = (target, n)) :
    (target = none ∧ n = 0) ∨
      ∃ u us t, ts = u :: us ∧ target = some t ∧ n = 1 ∧ TargetForm u.kind t := by
  unfold readTarget at h
  split at h
  · next u us =>
    split at h
    · next text hk =>
      cases h
      refine .inr ⟨u, us, _, rfl, rfl, rfl, ?_⟩
      rw [hk, targetOf]
      split
      · next ht => exact .quotedThis ht
      · next ht => exact .quoted (by simpa using ht)
    · next text hk =>
      cases h
      refine .inr ⟨u, us, _, rfl, rfl, rfl, ?_⟩
      rw [hk, targetOf]
      split
      · next ht => exact .wordThis ht
      · next ht => exact .word (by simpa using ht)
    · cases h
      exact .inl ⟨rfl, rfl⟩
  · cases h
    exact .inl ⟨rfl, rfl⟩

theorem readOperand_sound {op : Option (Operand × Token)} (h : readOperand src ts = .ok (op, n)) :
    (op = none ∧ n = 0) ∨ ∃ u us symbol o, ts = u :: us ∧ op = some (o, u) ∧ n = 1 ∧
      u.kind = .operator symbol ∧ Operand.ofSymbol? symbol = some o := by
  unfold readOperand at h
  split at h
  · next u us =>
    split at h
    · next symbol hk =>
      split at h
      · next o ho =>
        cases h
        exact .inr ⟨u, us, symbol, o, rfl, rfl, rfl, hk, ho⟩
      · cases h
    · cases h
      exact .inl ⟨rfl, rfl⟩
  · cases h
    exact .inl ⟨rfl, rfl⟩

theorem comparison_sound {op : Option (Operand × Token)} {target : Option Target}
    {operand : Operand} {rest : List Token} (h1 : readOperand src ts = .ok (op, n))
    (h2 : readTarget (ts.drop n) = (target, k))
    (h3 : settleOperand src op target rest = .ok operand) :
    Starts (ComparisonForm · operand target) ts (n + k) := by
  rcases readOperand_sound h1 with ⟨rfl, rfl⟩ | ⟨u, us, symbol, o, rfl, rfl, rfl, hk, ho⟩
  · rcases readTarget_sound h2 with ⟨rfl, rfl⟩ | ⟨v, vs, t, rfl, rfl, rfl, ht⟩
    · cases h3
      exact .zero .absent
    · cases h3
      exact ⟨by simp, by simpa using .equal ht⟩
  · rcases readTarget_sound h2 with ⟨rfl, rfl⟩ | ⟨v, vs, t, hv, rfl, rfl, ht⟩
    · cases h3
    · cases h3
      rw [List.drop_succ_cons, List.drop_zero] at hv
      subst hv
      refine ⟨by simp, ?_⟩
      simp only [List.take_succ_cons, List.take_zero, List.map_cons, List.map_nil, hk]
      exact .operator ho ht

/-- What stands behind the comparison of a bracket. -/
def EndsComparison (ks : List TokenKind) : Prop :=
  ∃ k rest, ks = k :: rest ∧ (k = .bar ∨ k = .dash ∨ k = .closeBracket)

theorem targetOf_quoted {text : String} {t : Target} (h : TargetForm (.quoted text) t) :
    targetOf text (.text text) = t := by
  cases h with
  | quotedThis h | quoted h => simp [targetOf, h]

theorem targetOf_word {text : String} {t : Target} (h : TargetForm (.word text) t) :
    targetOf text (.literal text) = t := by
  cases h with
  | wordThis h | word h => simp [targetOf, h]

theorem readTarget_complete {u : Token} {us : List Token} {t : Target}
    (h : TargetForm u.kind t) : readTarget (u :: us) = (some t, 1) := by
  unfold readTarget
  cases hk : u.kind with
  | quoted text => rw [hk] at h; simp [hk, targetOf_quoted h]
  | word text => rw [hk] at h; simp [hk, targetOf_word h]
  | _ => rw [hk] at h; cases h

theorem readOperand_none {u : Token} {us : List Token} (h : ∀ symbol, u.kind ≠ .operator symbol) :
    readOperand src (u :: us) = .ok (none, 0) := by
  unfold readOperand
  cases hk : u.kind with
  | operator symbol => exact absurd hk (h symbol)
  | _ => simp

theorem comparison_complete (src : RuleSource) {cs rest : List TokenKind} {operand : Operand}
    {target : Option Target} (h : ComparisonForm cs operand target)
    (ht : ts.map Token.kind = cs ++ rest) (hrest : EndsComparison rest) :
    ∃ op n k, readOperand src ts = .ok (op, n) ∧ readTarget (ts.drop n) = (target, k) ∧
      n + k = cs.length ∧ ∀ us, settleOperand src op target us = .ok operand := by
  cases h with
  | absent =>
    obtain ⟨e, rest, rfl, he⟩ := hrest
    obtain ⟨u, us, rfl, hu, -⟩ := List.map_eq_cons_iff.1 ht
    refine ⟨none, 0, 0, readOperand_none ?_, ?_, rfl, fun us => rfl⟩
    · intro symbol
      rw [hu]
      rcases he with rfl | rfl | rfl <;> simp
    · unfold readTarget
      rcases he with rfl | rfl | rfl <;> simp [hu]
  | equal hform =>
    obtain ⟨u, us, rfl, hu, -⟩ := List.map_eq_cons_iff.1 ht
    rw [← hu] at hform
    refine ⟨none, 0, 1, readOperand_none ?_, readTarget_complete hform, rfl, fun us => rfl⟩
    intro symbol hk
    rw [hk] at hform
    cases hform
  | operator ho hform =>
    obtain ⟨u, us, rfl, hu, ht⟩ := List.map_eq_cons_iff.1 ht
    obtain ⟨v, vs, rfl, hv, -⟩ := List.map_eq_cons_iff.1 ht
    rw [← hv] at hform
    refine ⟨some (operand, u), 1, 1, ?_, readTarget_complete hform, rfl, fun us => rfl⟩
    simp [readOperand, hu, ho]

/-! ## Arguments -/

theorem argumentOf_eq_some_iff {t : Token} {a : Argument} :
    argumentOf t = some a ↔ ArgumentForm t.kind a := by
  constructor
  · intro h
    unfold argumentOf at h
    split at h
    · next hk => cases h; rw [hk]; exact .quoted
    · next hk => cases h; rw [hk]; exact .word
    · cases h
  · intro h
    unfold argumentOf
    generalize t.kind = kind at h
    cases h <;> rfl

theorem readArguments_sound {as : List Argument} (h : readArguments src ts = .ok (as, n)) :
    Starts (fun ks => ∃ ls, ks = ls ++ [.closeParen] ∧ ArgumentsForm ls as) ts n := by
  fun_induction readArguments src ts generalizing as n with
  | case1 => cases h
  | case2 => cases h
  | case3 => cases h
  | case4 => cases h
  | case5 t u rest a ha hu =>
    cases h
    refine ⟨by simp, [t.kind], by simp [hu], .last (argumentOf_eq_some_iff.1 ha)⟩
  | case6 t u rest a ha _ hu as' m hm ih =>
    cases h
    obtain ⟨hle, ls, hls, hform⟩ := ih hm
    have hargument : ArgumentForm t.kind _ := argumentOf_eq_some_iff.1 ha
    refine ⟨by simpa using hle, t.kind :: .comma :: ls, ?_, .cons hargument hform⟩
    simp [hu, hls]
  | case7 => cases h
  | case8 => cases h

theorem readArguments_complete {ks rest : List TokenKind} {as : List Argument}
    (h : ArgumentsForm ks as) (ht : ts.map Token.kind = ks ++ .closeParen :: rest) :
    readArguments src ts = .ok (as, ks.length + 1) := by
  induction h generalizing ts with
  | last ha =>
    obtain ⟨t, us, rfl, hk, ht⟩ := List.map_eq_cons_iff.1 ht
    obtain ⟨u, us, rfl, hu, -⟩ := List.map_eq_cons_iff.1 ht
    rw [← hk] at ha
    simp [readArguments, argumentOf_eq_some_iff.2 ha, hu]
  | cons ha _ ih =>
    obtain ⟨t, us, rfl, hk, ht⟩ := List.map_eq_cons_iff.1 ht
    obtain ⟨u, us, rfl, hu, ht⟩ := List.map_eq_cons_iff.1 ht
    rw [← hk] at ha
    simp [readArguments, argumentOf_eq_some_iff.2 ha, hu, ih ht]

theorem ArgumentsForm.head_ne {ks : List TokenKind} {as : List Argument}
    (h : ArgumentsForm ks as) : ∃ k rest, ks = k :: rest ∧ k ≠ .closeParen := by
  cases h with
  | last ha => exact ⟨_, _, rfl, by cases ha <;> simp⟩
  | cons ha _ => exact ⟨_, _, rfl, by cases ha <;> simp⟩

theorem readArgumentList_sound {as : List Argument} (h : readArgumentList src ts = .ok (as, n)) :
    Starts (ArgumentListForm · as) ts n := by
  unfold readArgumentList at h
  split at h
  · cases h
    exact .zero .absent
  · next t rest =>
    split at h
    · next ht =>
      split at h
      · next hc =>
        cases h
        obtain ⟨u, us, rfl⟩ : ∃ u us, rest = u :: us := by
          cases rest with
          | nil => simp at hc
          | cons u us => exact ⟨u, us, rfl⟩
        refine ⟨by simp, ?_⟩
        simp only [List.head?_cons, Option.map_some, Option.some.injEq] at hc
        simp only [List.take_succ_cons, List.take_zero, List.map_cons, List.map_nil, ht, hc]
        exact .empty
      · obtain ⟨⟨as', m⟩, hm, he⟩ := map_ok_iff.1 h
        cases he
        refine (readArguments_sound hm).cons ?_
        rintro ks ⟨ls, rfl, hform⟩
        rw [ht]
        exact .filled hform
    · cases h
      exact .zero .absent

theorem readArgumentList_complete {ls rest : List TokenKind} {as : List Argument}
    (h : ArgumentListForm ls as) (ht : ts.map Token.kind = ls ++ rest)
    (hrest : rest.head? ≠ some .openParen) :
    readArgumentList src ts = .ok (as, ls.length) := by
  cases h with
  | absent =>
    unfold readArgumentList
    split
    · rfl
    · next t us =>
      have hk : t.kind ≠ .openParen := by
        rintro hk
        rw [List.nil_append] at ht
        simp [← ht, hk] at hrest
      rw [if_neg hk]
      rfl
  | empty =>
    obtain ⟨t, us, rfl, hk, ht⟩ := List.map_eq_cons_iff.1 ht
    obtain ⟨u, us, rfl, hu, -⟩ := List.map_eq_cons_iff.1 ht
    simp [readArgumentList, hk, hu]
  | filled hform =>
    rw [List.cons_append, List.append_assoc, List.singleton_append] at ht
    obtain ⟨t, us, rfl, hk, ht⟩ := List.map_eq_cons_iff.1 ht
    obtain ⟨k, ks, rfl, hne⟩ := hform.head_ne
    have hhead : us.head?.map Token.kind ≠ some .closeParen := by
      rw [← List.head?_map, ht]
      simpa using hne
    rw [readArgumentList, if_pos hk, if_neg hhead, readArguments_complete hform ht]
    simp [Except.map]

/-! ## Modifiers -/

theorem readModifier_sound {active : ModifierFlags} {seen : List Modifier} {m : Modifier}
    (hactive : active.IsUnion seen) (h : readModifier src active ts = .ok (m, n)) :
    (∀ m' ∈ seen, m'.code ≠ m.code) ∧
      Starts (fun ks => ∃ word code ls args, ks = .word word :: ls ∧
        Text.lowerAscii word = ModifierCode.text code ∧ ArgumentListForm ls args ∧
        Accepts code args m) ts n := by
  unfold readModifier at h
  split at h
  · cases h
  · next t rest =>
    split at h
    · next word hk =>
      obtain ⟨⟨args, k⟩, hargs, h⟩ := bind_ok_iff.1 h
      obtain ⟨m', hbuild, h⟩ := bind_ok_iff.1 h
      obtain ⟨code, hcode, haccepts⟩ := build_ok_iff.1 (mapError_ok_iff.1 hbuild)
      split at h
      · cases h
      · next hfresh =>
        cases h
        refine ⟨fun m' hm he => hfresh (hactive.contains_iff.2 ⟨m', hm, he⟩), ?_⟩
        refine (readArgumentList_sound hargs).cons fun ls hls => ?_
        exact ⟨word, code, ls, args, by rw [hk], hcode, hls, haccepts⟩
    · cases h

/-- What is active after modifiers is what was before and what they add. -/
theorem readModifiers_sound {active after : ModifierFlags} {seen ms : List Modifier}
    (hactive : active.IsUnion seen) (h : readModifiers src active ts = .ok (ms, after, n)) :
    ms.Pairwise (fun m m' => m.code ≠ m'.code) ∧ (∀ m ∈ ms, ∀ m' ∈ seen, m'.code ≠ m.code) ∧
      after.IsUnion (ms ++ seen) ∧ Starts (ModifiersForm · ms) ts n := by
  fun_induction readModifiers src active ts generalizing seen ms after n with
  | case1 =>
    cases h
    exact ⟨.nil, by simp, hactive, .zero .nil⟩
  | case2 => cases h
  | case3 => cases h
  | case4 active t rest ht m k hm ms' after' k' hms ih =>
    cases h
    obtain ⟨hseen, hform⟩ := readModifier_sound hactive hm
    obtain ⟨hnodup, hfresh, hafter, hforms⟩ := ih (hactive.cons m) hms
    refine ⟨List.pairwise_cons.2 ⟨fun m' hm' => hfresh m' hm' m (by simp), hnodup⟩, ?_,
      hafter.perm List.perm_middle, ?_⟩
    · intro a ha b hb
      rcases List.mem_cons.1 ha with rfl | ha
      · exact hseen b hb
      · exact hfresh a ha b (by simp [hb])
    · refine (hform.append hforms (R := fun ks => ModifiersForm (.bar :: ks) (m :: ms')) ?_).cons ?_
      · rintro ks ls ⟨word, code, as, args, rfl, hcode, hargs, haccepts⟩ hls
        exact .cons hcode hargs haccepts hls
      · intro ks hks
        rwa [ht]
  | case5 =>
    cases h
    exact ⟨.nil, by simp, hactive, .zero .nil⟩

/-- What stands behind the modifiers of a bracket. -/
def EndsModifiers (ks : List TokenKind) : Prop :=
  ∃ k rest, ks = k :: rest ∧ (k = .dash ∨ k = .closeBracket)

theorem ModifiersForm.head {ks rest : List TokenKind} {ms : List Modifier}
    (h : ModifiersForm ks ms) (hrest : EndsModifiers rest) : EndsComparison (ks ++ rest) := by
  cases h with
  | nil =>
    obtain ⟨k, rest, rfl, hk⟩ := hrest
    exact ⟨k, rest, rfl, .inr hk⟩
  | cons => exact ⟨.bar, _, rfl, .inl rfl⟩

theorem EndsComparison.head_ne {ks : List TokenKind} (h : EndsComparison ks) :
    ks.head? ≠ some .openParen := by
  obtain ⟨k, rest, rfl, rfl | rfl | rfl⟩ := h <;> simp

theorem readModifier_complete (src : RuleSource) {active : ModifierFlags} {seen : List Modifier}
    {t : Token} {word : String} {code : ModifierCode} {ls rest : List TokenKind}
    {args : List Argument} {m : Modifier} (hactive : active.IsUnion seen)
    (hk : t.kind = .word word) (hcode : Text.lowerAscii word = code.text)
    (hargs : ArgumentListForm ls args) (haccepts : Accepts code args m)
    (ht : ts.map Token.kind = ls ++ rest) (hrest : EndsComparison rest)
    (hfresh : ∀ m' ∈ seen, m'.code ≠ m.code) :
    readModifier src active (t :: ts) = .ok (m, ls.length + 1) := by
  have hseen : ¬ active.contains m.flag = true := by
    intro hcontains
    obtain ⟨m', hm', he⟩ := hactive.contains_iff.1 hcontains
    exact hfresh m' hm' he
  have hbuild : ∀ f : Modifier.Fault → ParseError, (Modifier.build word args).mapError f = .ok m :=
    fun _ => mapError_ok_iff.2 (build_ok_iff.2 ⟨code, hcode, haccepts⟩)
  simp only [readModifier, hk, readArgumentList_complete hargs ht hrest.head_ne, hbuild, bind,
    Except.bind, if_neg hseen]

theorem readModifiers_complete (src : RuleSource) {active after : ModifierFlags}
    {seen ms : List Modifier} {ks rest : List TokenKind} (h : ModifiersForm ks ms)
    (hactive : active.IsUnion seen) (hafter : after.IsUnion (ms ++ seen))
    (ht : ts.map Token.kind = ks ++ rest) (hrest : EndsModifiers rest)
    (hnodup : (ms.map Modifier.code).Nodup) (hfresh : ∀ m ∈ ms, ∀ m' ∈ seen, m'.code ≠ m.code) :
    readModifiers src active ts = .ok (ms, after, ks.length) := by
  induction h generalizing active seen ts with
  | nil =>
    obtain ⟨k, rest, rfl, hk⟩ := hrest
    obtain ⟨t, us, rfl, hu, -⟩ := List.map_eq_cons_iff.1 ht
    rw [readModifiers, if_neg]
    · rw [hactive.unique hafter]
      rfl
    · rw [hu]
      rcases hk with rfl | rfl <;> simp
  | @cons word code ls args m ks ms hcode hargs haccepts hms ih =>
    rw [List.cons_append, List.cons_append, List.append_assoc] at ht
    obtain ⟨t, us, rfl, hbar, ht⟩ := List.map_eq_cons_iff.1 ht
    obtain ⟨u, us, rfl, hword, ht⟩ := List.map_eq_cons_iff.1 ht
    have hm := readModifier_complete src hactive hword hcode hargs haccepts ht
      (hms.head hrest) (hfresh m (by simp))
    have hdrop : (us.drop ls.length).map Token.kind = ks ++ rest := by
      rw [List.map_drop, ht, List.drop_left]
    obtain ⟨hne, hnodup⟩ := List.nodup_cons.1 hnodup
    have hfresh' : ∀ a ∈ ms, ∀ b ∈ m :: seen, b.code ≠ a.code := by
      intro a ha b hb
      rcases List.mem_cons.1 hb with rfl | hb
      · exact fun he => hne (he ▸ List.mem_map_of_mem ha)
      · exact hfresh a (by simp [ha]) b hb
    have hms' := ih (hactive.cons m) (hafter.perm List.perm_middle.symm) hdrop hnodup hfresh'
    rw [readModifiers, if_pos hbar, hm]
    simp only [List.drop_succ_cons, hms']
    simp only [List.length_cons, List.length_append, Except.ok.injEq, Prod.mk.injEq, true_and]
    omega

/-! ## Flags -/

theorem toLower_eq_f_iff (c : Char) : c.toLower = 'f' ↔ c = 'f' ∨ c = 'F' := by
  constructor
  · intro h
    unfold Char.toLower at h
    split at h
    · right
      have hv : c.val + 32 = 102 := congrArg Char.val h
      have hc : c.val = 102 - 32 := by rw [← hv]; simp
      exact Char.ext (by simpa using hc)
    · exact .inl h
  · rintro (rfl | rfl) <;> rfl

theorem flagFault_eq_none_iff {letters : String} :
    flagFault letters = none ↔ ∀ c ∈ letters.toList, c = 'f' ∨ c = 'F' := by
  unfold flagFault
  simp only [List.find?_eq_none, List.mem_map, decide_eq_true_eq, not_not]
  constructor
  · intro h c hc
    exact (toLower_eq_f_iff c).1 (h _ ⟨c, hc, rfl⟩)
  · rintro h _ ⟨c, hc, rfl⟩
    exact (toLower_eq_f_iff c).2 (h c hc)

theorem readFlags_sound {force : Bool} (h : readFlags src ts = .ok (force, n)) :
    Starts (FlagsForm · force) ts n := by
  fun_induction readFlags src ts generalizing force n with
  | case1 => cases h; exact .zero .nil
  | case2 => cases h
  | case3 => cases h; exact .zero .nil
  | case4 => cases h
  | case5 t u rest ht letters hu hl force' k hr ih =>
    cases h
    refine ((ih hr).cons (t := u) (Q := fun ks => FlagsForm (.dash :: ks) true) ?_).cons ?_
    · intro ks hks
      rw [hu]
      exact .cons (flagFault_eq_none_iff.1 hl) hks
    · intro ks hks
      rwa [ht]
  | case6 => cases h
  | case7 => cases h
  | case8 => cases h; exact .zero .nil

theorem readFlags_complete (src : RuleSource) {ks rest : List TokenKind} {force : Bool}
    (h : FlagsForm ks force) (ht : ts.map Token.kind = ks ++ .closeBracket :: rest) :
    readFlags src ts = .ok (force, ks.length) := by
  induction h generalizing ts with
  | nil =>
    obtain ⟨t, us, rfl, hk, -⟩ := List.map_eq_cons_iff.1 ht
    unfold readFlags
    split <;> simp_all
  | cons hl _ ih =>
    obtain ⟨t, us, rfl, hk, ht⟩ := List.map_eq_cons_iff.1 ht
    obtain ⟨u, us, rfl, hu, ht⟩ := List.map_eq_cons_iff.1 ht
    simp [readFlags, hk, hu, flagFault_eq_none_iff.2 hl, ih ht]

theorem FlagsForm.head {ks rest : List TokenKind} {force : Bool} (h : FlagsForm ks force) :
    EndsModifiers (ks ++ .closeBracket :: rest) := by
  cases h with
  | nil => exact ⟨_, _, rfl, .inr rfl⟩
  | cons => exact ⟨_, _, rfl, .inl rfl⟩

/-! ## Brackets -/

theorem readBracket_sound {opening : Token} {r : Rule} (ho : opening.kind = .openBracket)
    (h : readBracket src opening ts = .ok (r, n)) :
    Starts (BracketForm · r.shape) (opening :: ts) (n + 1) := by
  unfold readBracket at h
  obtain ⟨⟨op, n₁⟩, hop, h⟩ := bind_ok_iff.1 h
  dsimp only at h
  generalize htarget : readTarget (ts.drop n₁) = target at h
  obtain ⟨target, n₂⟩ := target
  obtain ⟨operand, hsettle, h⟩ := bind_ok_iff.1 h
  obtain ⟨⟨ms, active, n₃⟩, hms, h⟩ := bind_ok_iff.1 h
  obtain ⟨⟨force, n₄⟩, hflags, h⟩ := bind_ok_iff.1 h
  dsimp only at h hms hflags
  split at h
  · next t rest hrest =>
    split at h
    · next hclose =>
      cases h
      obtain ⟨hnodup, -, hactive, hmods⟩ := readModifiers_sound ModifierFlags.isUnion_none hms
      rw [List.append_nil] at hactive
      have horder := sortOn_inOrder (List.pairwise_map.2 hnodup)
      have hcomp := comparison_sound hop htarget hsettle
      refine Starts.cons (P := fun ks => ∃ cs ls fs, ks = (cs ++ ls) ++ fs ++ [.closeBracket] ∧
        ComparisonForm cs operand target ∧ ModifiersForm ls ms ∧ FlagsForm fs force) ?_ ?_
      · refine Starts.snoc (P := fun ks => ∃ cs ls fs, ks = (cs ++ ls) ++ fs ∧
          ComparisonForm cs operand target ∧ ModifiersForm ls ms ∧ FlagsForm fs force) ?_ hrest ?_
        · have hcm := hcomp.append hmods (R := fun ks => ∃ cs ls, ks = cs ++ ls ∧
            ComparisonForm cs operand target ∧ ModifiersForm ls ms)
            fun cs ls hc hm => ⟨cs, ls, rfl, hc, hm⟩
          refine hcm.append (readFlags_sound hflags) ?_
          rintro _ fs ⟨cs, ls, rfl, hc, hm⟩ hf
          exact ⟨cs, ls, fs, rfl, hc, hm, hf⟩
        · rintro _ ⟨cs, ls, fs, rfl, hc, hm, hf⟩
          exact ⟨cs, ls, fs, by rw [hclose], hc, hm, hf⟩
      · rintro _ ⟨cs, ls, fs, rfl, hc, hm, hf⟩
        rw [ho]
        simpa [Rule.shape] using BracketForm.mk hc hm horder (hactive.perm horder.perm.symm) hf
    · cases h
  · cases h

theorem readBracket_complete (src : RuleSource) (opening : Token) {ks rest : List TokenKind}
    {s : Shape} (h : BracketForm (.openBracket :: ks) s) (ht : ts.map Token.kind = ks ++ rest) :
    ∃ r, readBracket src opening ts = .ok (r, ks.length) ∧ r.shape = s := by
  cases h with
  | @mk cs op target ls written modifiers active fs force hc hm horder hactive hf =>
    simp only [List.append_assoc, List.singleton_append] at ht
    have hends : EndsModifiers (fs ++ .closeBracket :: rest) := hf.head
    obtain ⟨o, n, k, hop, htarget, hnk, hsettle⟩ :=
      comparison_complete src hc ht (hm.head hends)
    have hcut : (ts.drop (n + k)).map Token.kind = ls ++ (fs ++ .closeBracket :: rest) := by
      rw [List.map_drop, ht, hnk, List.drop_left]
    have hafter : active.IsUnion (written ++ []) := by
      rw [List.append_nil]
      exact hactive.perm horder.perm
    have hms := readModifiers_complete src hm ModifierFlags.isUnion_none hafter hcut hends
      horder.nodup (by simp)
    have hcut' : (ts.drop (n + k + ls.length)).map Token.kind = fs ++ .closeBracket :: rest := by
      rw [← List.drop_drop, List.map_drop, hcut, List.drop_left]
    have hflags := readFlags_complete src hf hcut'
    have hend :
        (ts.drop (n + k + ls.length + fs.length)).map Token.kind = .closeBracket :: rest := by
      rw [← List.drop_drop, List.map_drop, hcut', List.drop_left]
    obtain ⟨t, us, hdrop, hclose, -⟩ := List.map_eq_cons_iff.1 hend
    refine ⟨.bracket ⟨src.slice ⟨opening.span.start, t.span.stop⟩,
      ⟨opening.span.start, t.span.stop⟩, op, target, sortOn (·.code.rank) written, active, force⟩,
      ?_, ?_⟩
    · simp only [readBracket, hop, htarget, hsettle, hms, hflags, hdrop, hclose, bind, Except.bind,
        if_true, List.length_append, List.length_cons, List.length_nil, Except.ok.injEq,
        Prod.mk.injEq, true_and]
      omega
    · rw [Rule.shape, horder.eq_sortOn]

/-! ## Chains -/

theorem joinOf_eq_some_iff {k : TokenKind} {join : Join} :
    joinOf k = some join ↔ SignForm k join := by
  constructor
  · intro h
    unfold joinOf at h
    split at h
    · cases h; exact .and
    · cases h; exact .or
    · cases h
  · rintro ⟨⟩ <;> rfl

/-- The links of a chain without sources and spans. -/
def linkShapes (links : List (Join × Rule)) : List (Join × Shape) :=
  links.map fun (join, r) => (join, r.shape)

theorem ofChain_shape (span : Span) (first : Rule) (join : Join) (r : Rule)
    (links : List (Join × Rule)) :
    (ofChain src span first ((join, r) :: links)).shape =
      .node [⟨join, first.shape :: r.shape :: (linkShapes links).map Prod.snd⟩] := by
  have hmembers : memberShapes (links.map Prod.snd) = (linkShapes links).map Prod.snd := by
    rw [memberShapes_eq_map, linkShapes, List.map_map, List.map_map]
    rfl
  simp only [ofChain, Rule.shape, groupShapes, groupShape, memberShapes, hmembers]

section
variable {unit : List Token → Except ParseError (Rule × Nat)} {depth : Nat}

theorem readLinks_sound
    (hunit : ∀ ts r n, unit ts = .ok (r, n) → Starts (UnitForm depth · r.shape) ts n)
    {links : List (Join × Rule)} (h : readLinks unit ts = .ok (links, n)) :
    Starts (LinksForm depth · (linkShapes links)) ts n := by
  fun_induction readLinks unit ts generalizing links n with
  | case1 => cases h; exact .zero .nil
  | case2 => cases h; exact .zero .nil
  | case3 => cases h
  | case4 => cases h
  | case5 t rest join hj r k hr links' k' hlinks ih =>
    cases h
    refine ((hunit _ _ _ hr).append (ih hlinks) (R := fun ks =>
      LinksForm depth (t.kind :: ks) (linkShapes ((join, r) :: links'))) ?_).cons fun ks hks => hks
    intro ks ls hks hls
    exact .cons (joinOf_eq_some_iff.1 hj) hks hls

theorem readChain_sound
    (hunit : ∀ ts r n, unit ts = .ok (r, n) → Starts (UnitForm depth · r.shape) ts n)
    {r : Rule} (h : readChain src unit ts = .ok (r, n)) :
    Starts (ChainForm depth · r.shape) ts n := by
  unfold readChain at h
  obtain ⟨⟨first, k⟩, hfirst, h⟩ := bind_ok_iff.1 h
  obtain ⟨⟨links, k'⟩, hlinks, h⟩ := bind_ok_iff.1 h
  cases h
  refine (hunit _ _ _ hfirst).append (readLinks_sound hunit hlinks) fun ks ls hks hls => ?_
  cases links with
  | nil =>
    cases hls
    simpa [ofChain] using ChainForm.one hks
  | cons link links =>
    obtain ⟨join, r⟩ := link
    rw [ofChain_shape]
    exact .more hks hls

/-- What stands behind a chain: no sign. -/
def EndsChain (ks : List TokenKind) : Prop := ∀ k, ks.head? = some k → joinOf k = none

theorem readLinks_complete
    (hunit : ∀ ts ks rest s, UnitForm depth ks s → ts.map Token.kind = ks ++ rest →
      ∃ r, unit ts = .ok (r, ks.length) ∧ r.shape = s)
    {links : List (Join × Shape)} {ls rest : List TokenKind} (h : LinksForm depth ls links)
    (ht : ts.map Token.kind = ls ++ rest) (hrest : EndsChain rest) :
    ∃ links', readLinks unit ts = .ok (links', ls.length) ∧ linkShapes links' = links := by
  induction links generalizing ls ts with
  | nil =>
    cases h
    refine ⟨[], ?_, rfl⟩
    unfold readLinks
    split
    · rfl
    · next t us =>
      have hk : joinOf t.kind = none := hrest _ (by rw [List.nil_append] at ht; simp [← ht])
      simp [hk]
  | cons link links ih =>
    cases h with
    | @cons _ k join ks s ls _ hk hunitForm hlinks =>
      rw [List.cons_append, List.append_assoc] at ht
      obtain ⟨t, us, rfl, rfl, hus⟩ := List.map_eq_cons_iff.1 ht
      obtain ⟨r, hr, rfl⟩ := hunit us ks _ s hunitForm hus
      have hdrop : (us.drop ks.length).map Token.kind = ls ++ rest := by
        rw [List.map_drop, hus, List.drop_left]
      obtain ⟨links', hl, rfl⟩ := ih hlinks hdrop
      refine ⟨(join, r) :: links', ?_, rfl⟩
      rw [readLinks]
      simp [joinOf_eq_some_iff.2 hk, hr, hl]

theorem readChain_eq (src : RuleSource) {first : Rule} {links : List (Join × Rule)}
    (hfirst : unit ts = .ok (first, n)) (hlinks : readLinks unit (ts.drop n) = .ok (links, k)) :
    ∃ span, readChain src unit ts = .ok (ofChain src span first links, n + k) := by
  refine ⟨⟨(ts.head?.map (·.span.start)).getD 0, stopOf ts (n + k)⟩, ?_⟩
  simp only [readChain, hfirst, hlinks, bind, Except.bind, pure, Except.pure]

theorem readChain_complete (src : RuleSource)
    (hunit : ∀ ts ks rest s, UnitForm depth ks s → ts.map Token.kind = ks ++ rest →
      ∃ r, unit ts = .ok (r, ks.length) ∧ r.shape = s)
    {ks rest : List TokenKind} {s : Shape} (h : ChainForm depth ks s)
    (ht : ts.map Token.kind = ks ++ rest) (hrest : EndsChain rest) :
    ∃ r, readChain src unit ts = .ok (r, ks.length) ∧ r.shape = s := by
  -- a lone unit is a unit before no links, so both forms are read in one way
  have hchain : ∃ first ks' ls links, ks = ks' ++ ls ∧ UnitForm depth ks' first ∧
      LinksForm depth ls links ∧ ∀ span r links', r.shape = first → linkShapes links' = links →
        (ofChain src span r links').shape = s := by
    cases h with
    | one hs =>
      refine ⟨s, ks, [], [], by simp, hs, .nil, fun span r links' hr hl => ?_⟩
      rw [linkShapes, List.map_eq_nil_iff] at hl
      rw [hl]
      exact hr
    | @more _ ks' first ls join s' links hs hlinks =>
      refine ⟨first, ks', ls, (join, s') :: links, rfl, hs, hlinks, fun span r links' hr hl => ?_⟩
      obtain ⟨⟨j, r'⟩, rest', rfl, hj, rfl⟩ := List.map_eq_cons_iff.1 hl
      cases hj
      rw [ofChain_shape, hr]
      rfl
  obtain ⟨first, ks', ls, links, rfl, hfirst, hlinks, hshape⟩ := hchain
  rw [List.append_assoc] at ht
  obtain ⟨r, hr, hrs⟩ := hunit ts ks' _ first hfirst ht
  have hdrop : (ts.drop ks'.length).map Token.kind = ls ++ rest := by
    rw [List.map_drop, ht, List.drop_left]
  obtain ⟨links', hl, hls⟩ := readLinks_complete hunit hlinks hdrop hrest
  obtain ⟨span, heq⟩ := readChain_eq src hr hl
  exact ⟨_, by rw [heq, List.length_append], hshape span r links' hrs hls⟩

end

/-! ## Units -/

theorem readUnit_ok_cases {limit depth : Nat} {r : Rule}
    (h : readUnit src limit depth ts = .ok (r, n)) :
    (∃ t rest k, ts = t :: rest ∧ t.kind = .openBracket ∧
      readBracket src t rest = .ok (r, k) ∧ n = k + 1) ∨
    ∃ t rest depth' k u us, ts = t :: rest ∧ t.kind = .openParen ∧ depth = depth' + 1 ∧
      readChain src (readUnit src limit depth') rest = .ok (r, k) ∧
      rest.drop k = u :: us ∧ u.kind = .closeParen ∧ n = k + 2 := by
  cases ts with
  | nil => simp [readUnit] at h
  | cons t rest =>
    unfold readUnit at h
    split at h
    · next hk =>
      obtain ⟨⟨r', k⟩, hr, he⟩ := map_ok_iff.1 h
      cases he
      exact .inl ⟨t, rest, k, rfl, hk, hr, rfl⟩
    · cases h
    · next depth' hk =>
      obtain ⟨⟨r', k⟩, hr, h⟩ := bind_ok_iff.1 h
      dsimp only at h
      split at h
      · next u us hdrop =>
        split at h
        · next hu =>
          cases h
          exact .inr ⟨t, rest, depth', k, u, us, rfl, hk, rfl, hr, hdrop, hu, rfl⟩
        · cases h
      · cases h
    · cases h

theorem readUnit_sound {limit depth : Nat} {r : Rule}
    (h : readUnit src limit depth ts = .ok (r, n)) : Starts (UnitForm depth · r.shape) ts n := by
  induction depth generalizing ts r n with
  | zero =>
    rcases readUnit_ok_cases h with ⟨t, rest, k, rfl, hk, hr, rfl⟩ | ⟨_, _, _, _, _, _, _, _, hd, _⟩
    · exact (readBracket_sound hk hr).imp fun ks hks => .bracket hks
    · cases hd
  | succ depth ih =>
    rcases readUnit_ok_cases h with ⟨t, rest, k, rfl, hk, hr, rfl⟩ |
      ⟨t, rest, depth', k, u, us, rfl, hk, hd, hr, hdrop, hu, rfl⟩
    · exact (readBracket_sound hk hr).imp fun ks hks => .bracket hks
    · cases hd
      have hchain := readChain_sound (fun _ _ _ => ih) hr
      refine (hchain.snoc (R := fun ks => UnitForm (depth + 1) (.openParen :: ks) r.shape)
        hdrop ?_).cons ?_
      · intro ks hks
        rw [hu]
        exact .parens hks
      · intro ks hks
        rwa [hk]

theorem readUnit_bracket_complete {limit depth : Nat} {ks rest : List TokenKind} {s : Shape}
    (h : BracketForm ks s) (ht : ts.map Token.kind = ks ++ rest) :
    ∃ r, readUnit src limit depth ts = .ok (r, ks.length) ∧ r.shape = s := by
  obtain ⟨ks, rfl⟩ : ∃ ks', ks = .openBracket :: ks' := by
    cases h
    exact ⟨_, rfl⟩
  obtain ⟨t, us, rfl, hk, ht⟩ := List.map_eq_cons_iff.1 ht
  obtain ⟨r, hr, hs⟩ := readBracket_complete src t h ht
  refine ⟨r, ?_, hs⟩
  cases depth <;> simp [readUnit, hk, hr, Except.map]

theorem readUnit_complete {limit depth : Nat} {ks rest : List TokenKind} {s : Shape}
    (h : UnitForm depth ks s) (ht : ts.map Token.kind = ks ++ rest) :
    ∃ r, readUnit src limit depth ts = .ok (r, ks.length) ∧ r.shape = s := by
  induction depth generalizing ks rest ts s with
  | zero =>
    cases h with
    | bracket hb => exact readUnit_bracket_complete hb ht
  | succ depth ih =>
    cases h with
    | bracket hb => exact readUnit_bracket_complete hb ht
    | @parens _ ks _ hchain =>
      rw [List.cons_append, List.append_assoc, List.singleton_append] at ht
      obtain ⟨t, us, rfl, hk, ht⟩ := List.map_eq_cons_iff.1 ht
      have hends : EndsChain (.closeParen :: rest) := by
        rintro k hk
        cases hk
        rfl
      obtain ⟨r, hr, rfl⟩ := readChain_complete src
        (fun _ _ _ _ hu hts => ih hu hts) hchain ht hends
      have hdrop : (us.drop ks.length).map Token.kind = .closeParen :: rest := by
        rw [List.map_drop, ht, List.drop_left]
      obtain ⟨u, us', hdrop, hu, -⟩ := List.map_eq_cons_iff.1 hdrop
      refine ⟨r, ?_, rfl⟩
      simp only [readUnit, hk, hr, hdrop, hu, bind, Except.bind, if_true, List.length_cons,
        List.length_append, List.length_nil]

/-! ## Whole texts -/

theorem ofTokens_sound {limit : Nat} {text : String} {r : Rule}
    (h : ofTokens limit text ts = .ok r) : ChainForm limit (ts.map Token.kind) r.shape := by
  unfold ofTokens at h
  obtain ⟨⟨r', n⟩, hr, h⟩ := bind_ok_iff.1 h
  dsimp only at h
  split at h
  · next hdrop =>
    cases h
    obtain ⟨hle, hform⟩ := readChain_sound (fun _ _ _ => readUnit_sound) hr
    rwa [List.take_of_length_le (List.drop_eq_nil_iff.1 hdrop)] at hform
  · cases h

theorem ofTokens_complete {limit : Nat} {text : String} {s : Shape}
    (h : ChainForm limit (ts.map Token.kind) s) :
    ∃ r, ofTokens limit text ts = .ok r ∧ r.shape = s := by
  let src := sourceOf text ts
  have hunit : ∀ us ks rest s, UnitForm limit ks s → us.map Token.kind = ks ++ rest →
      ∃ r, readUnit src limit limit us = .ok (r, ks.length) ∧ r.shape = s :=
    fun _ _ _ _ hu hus => readUnit_complete hu hus
  have hend : EndsChain [] := by simp [EndsChain]
  obtain ⟨r, hr, rfl⟩ := readChain_complete src hunit h (List.append_nil _).symm hend
  refine ⟨r, ?_, rfl⟩
  simp [ofTokens, src, hr, bind, Except.bind]

theorem compile_sound {config : Config} {text : String} {r : Rule}
    (h : Rule.compile config text = .ok r) : Derives config.maxDepth text r.shape := by
  unfold Rule.compile at h
  split at h
  · cases h
  · cases h
  · next ts _ hts => exact ⟨ts, hts, ofTokens_sound h⟩

theorem compile_complete {config : Config} {text : String} {s : Shape}
    (h : Derives config.maxDepth text s) : ∃ r, Rule.compile config text = .ok r ∧ r.shape = s := by
  obtain ⟨ts, hts, hchain⟩ := h
  unfold Rule.compile
  rw [hts]
  cases ts with
  | nil => exact absurd rfl hchain.ne_nil
  | cons t ts => exact ofTokens_complete hchain

/-- A text is compiled exactly when the grammar derives a shape from it, and it derives one shape
only: that of the rule returned. -/
theorem compile_ok_iff_derives (config : Config) (text : String) :
    ((∃ r, Rule.compile config text = .ok r) ↔ ∃ s, Derives config.maxDepth text s) ∧
      ∀ r, Rule.compile config text = .ok r →
        ∀ s, Derives config.maxDepth text s ↔ s = r.shape := by
  refine ⟨⟨?_, ?_⟩, ?_⟩
  · rintro ⟨r, hr⟩
    exact ⟨r.shape, compile_sound hr⟩
  · rintro ⟨s, hs⟩
    obtain ⟨r, hr, -⟩ := compile_complete hs
    exact ⟨r, hr⟩
  · intro r hr s
    constructor
    · intro hs
      obtain ⟨r', hr', rfl⟩ := compile_complete hs
      rw [hr] at hr'
      cases hr'
      rfl
    · rintro rfl
      exact compile_sound hr

end Rulebook.Grammar
