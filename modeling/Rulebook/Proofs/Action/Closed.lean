import Rulebook.Proofs.Action.Balanced

/-!
# Closed texts

`Closed` is the grammar of the texts in which every quotation, bracket and parenthesis that is
opened is closed; an apostrophe opens a quotation where a token can begin.  Following a text
character by character comes to the same (`closed_iff`), so the place after a text is outside all of
them where the text is closed:

    Outside cs   ↔   Balanced cs
-/

namespace Rulebook.TopLevel

open Text

/-! ## Closed texts -/

/-- Whether a token can begin after the character. -/
def opensNext (opens : Bool) (c : Char) : Bool := if isSpace c then opens else opensToken (some c)

/-- What is opened in the text is closed in it.  The flags say whether a token can begin before the
text and after it. -/
inductive Closed : Bool → List Char → Bool → Prop
  | nil {o : Bool} : Closed o [] o
  | plain {o o' : Bool} {c : Char} {cs : List Char} : IsPlain c ∨ (c = '\'' ∧ o = false) →
      Closed (opensNext o c) cs o' → Closed o (c :: cs) o'
  | quoted {o o' : Bool} {q : Char} {cs ds : List Char} : q = '"' ∨ (q = '\'' ∧ o = true) →
      q ∉ cs → Closed false ds o' → Closed o (q :: (cs ++ q :: ds)) o'
  | enclosed {o o₁ o' : Bool} {b : Char} {cs ds : List Char} : b = '(' ∨ b = '[' →
      Closed true cs o₁ → Closed false ds o' → Closed o (b :: (cs ++ closing b :: ds)) o'

/-- The place after the text is outside quotes, brackets and parentheses. -/
def Outside (cs : List Char) : Prop := ∃ o, Closed true cs o

variable {cs ds rest stack : List Char} {o o' : Bool} {c q : Char} {m m' : Mode}

namespace Mode

theorem after_append (m : Mode) (cs ds : List Char) :
    m.after (cs ++ ds) = (m.after cs).bind (after · ds) := by
  induction cs generalizing m with
  | nil => rfl
  | cons c cs ih =>
    rw [List.cons_append, after, after]
    cases m.next c with
    | none => rfl
    | some m' => exact ih m'

theorem next_plain (hc : IsPlain c ∨ (c = '\'' ∧ o = false)) :
    next ⟨o, none, stack⟩ c = some ⟨opensNext o c, none, stack⟩ := by
  rcases hc with hc | ⟨rfl, rfl⟩
  · simp only [IsPlain, List.mem_cons, List.not_mem_nil, or_false, not_or] at hc
    simp [next, opensAfter, opensNext, hc]
  · rfl

theorem next_quote (hq : q = '"' ∨ (q = '\'' ∧ o = true)) :
    next ⟨o, none, stack⟩ q = some ⟨false, some q, stack⟩ := by
  rcases hq with rfl | ⟨rfl, rfl⟩ <;> rfl

theorem next_open (hc : c = '(' ∨ c = '[') :
    next ⟨o, none, stack⟩ c = some ⟨true, none, c :: stack⟩ := by
  rcases hc with rfl | rfl <;> rfl

theorem next_closing (hc : c = '(' ∨ c = '[') :
    next ⟨o, none, c :: stack⟩ (closing c) = some ⟨false, none, stack⟩ := by
  rcases hc with rfl | rfl <;> rfl

/-- What closes something closes the innermost opening. -/
theorem exists_of_next_close (hc : c = ')' ∨ c = ']') (h : next ⟨o, none, stack⟩ c = some m) :
    ∃ b stack', stack = b :: stack' ∧ c = closing b ∧ m = ⟨false, none, stack'⟩ := by
  cases stack with
  | nil => rcases hc with rfl | rfl <;> cases h
  | cons b stack =>
    refine ⟨b, stack, rfl, ?_⟩
    by_cases hpair : (c = ')' ∧ b = '(') ∨ (c = ']' ∧ b = '[')
    · rcases hpair with ⟨rfl, rfl⟩ | ⟨rfl, rfl⟩ <;> exact ⟨rfl, (Option.some.inj h).symm⟩
    · have hnone : next ⟨o, none, b :: stack⟩ c = none := by
        rcases hc with rfl | rfl <;> simpa [next] using hpair
      rw [hnone] at h
      cases h

/-- A quotation ends with the next mark of its kind. -/
theorem after_quoted (hq : q = '"' ∨ q = '\'') (hcs : q ∉ cs) :
    after ⟨o, some q, stack⟩ (cs ++ q :: rest) = after ⟨false, none, stack⟩ rest := by
  induction cs generalizing o with
  | nil =>
    rcases hq with rfl | rfl <;> rfl
  | cons c cs ih =>
    obtain ⟨hc, hcs⟩ := not_or.1 (mt List.mem_cons.2 hcs)
    rw [List.cons_append, after, next]
    dsimp only
    rw [if_neg (Ne.symm hc)]
    exact ih hcs

end Mode

theorem Closed.after (h : Closed o cs o') (stack rest : List Char) :
    Mode.after ⟨o, none, stack⟩ (cs ++ rest) = Mode.after ⟨o', none, stack⟩ rest := by
  induction h generalizing stack rest with
  | nil => rfl
  | plain hc _ ih =>
    rw [List.cons_append, Mode.after, Mode.next_plain hc]
    exact ih stack rest
  | quoted hq hcs _ ih =>
    rw [List.cons_append, Mode.after, Mode.next_quote hq, Option.bind_some, List.append_assoc,
      List.cons_append, Mode.after_quoted (hq.imp_right And.left) hcs]
    exact ih stack rest
  | enclosed hb _ _ ih ih' =>
    rw [List.cons_append, Mode.after, Mode.next_open hb, Option.bind_some, List.append_assoc,
      List.cons_append, ih, Mode.after, Mode.next_closing hb]
    exact ih' stack rest

/-- The text closes the openings in `stack`, the innermost first, with closed texts between. -/
def Unwinds : List Char → Bool → List Char → Bool → Prop
  | [], o, cs, o' => Closed o cs o'
  | b :: stack, o, cs, o' =>
    ∃ inner o₁ ds, cs = inner ++ closing b :: ds ∧ Closed o inner o₁ ∧ Unwinds stack false ds o'

/-- What goes in front of closed texts goes in front of these. -/
theorem Unwinds.prepend {o₁ : Bool} (hcs : ∀ ds o', Closed o₁ ds o' → Closed o (cs ++ ds) o')
    (h : Unwinds stack o₁ ds o') : Unwinds stack o (cs ++ ds) o' := by
  cases stack with
  | nil => exact hcs ds o' h
  | cons b stack =>
    obtain ⟨inner, o₂, ds', rfl, hinner, hds'⟩ := h
    exact ⟨cs ++ inner, o₂, ds', by rw [List.append_assoc], hcs inner o₂ hinner, hds'⟩

/-- From an opening on, up to where it is closed. -/
theorem Unwinds.enclose (hb : c = '(' ∨ c = '[') (h : Unwinds (c :: stack) true cs o') :
    Unwinds stack o (c :: cs) o' := by
  obtain ⟨inner, o₁, ds, rfl, hinner, hds⟩ := h
  have hitem : ∀ ds o', Closed false ds o' → Closed o ((c :: (inner ++ [closing c])) ++ ds) o' := by
    intro ds o' hds
    rw [List.cons_append, List.append_assoc, List.singleton_append]
    exact .enclosed hb hinner hds
  have hwhole := hds.prepend hitem
  rwa [List.cons_append, List.append_assoc, List.singleton_append] at hwhole

/-- From a quotation mark on, up to the next of its kind. -/
theorem Unwinds.quote (hq : q = '"' ∨ (q = '\'' ∧ o = true)) (hcs : q ∉ cs)
    (h : Unwinds stack false ds o') : Unwinds stack o (q :: (cs ++ q :: ds)) o' := by
  have hitem : ∀ ds o', Closed false ds o' → Closed o ((q :: (cs ++ [q])) ++ ds) o' := by
    intro ds o' hds
    rw [List.cons_append, List.append_assoc, List.singleton_append]
    exact .quoted hq hcs hds
  have hwhole := h.prepend hitem
  rwa [List.cons_append, List.append_assoc, List.singleton_append] at hwhole

/-- What follows up to the end of a text that ends outside, from within a quotation or not. -/
theorem unwinds_of_after (h : m.after cs = some m') (hm : m'.IsTop) :
    match m.quote with
    | none => Unwinds m.stack m.opens cs m'.opens
    | some q => q = '"' ∨ q = '\'' →
        ∃ inner ds, cs = inner ++ q :: ds ∧ q ∉ inner ∧ Unwinds m.stack false ds m'.opens := by
  induction cs generalizing m with
  | nil =>
    cases h
    rw [hm.1, hm.2]
    exact .nil
  | cons c cs ih =>
    obtain ⟨o, quote, stack⟩ := m
    obtain ⟨m₁, hnext, hrest⟩ := Option.bind_eq_some_iff.1 h
    have hunwinds := ih hrest
    cases quote with
    | some q =>
      intro hq
      by_cases hc : c = q
      · subst hc
        have hnext' : Mode.next ⟨o, some c, stack⟩ c = some ⟨false, none, stack⟩ := by
          rcases hq with rfl | rfl <;> rfl
        rw [hnext'] at hnext
        cases hnext
        exact ⟨[], cs, rfl, List.not_mem_nil, hunwinds⟩
      · rw [Mode.next] at hnext
        dsimp only at hnext
        rw [if_neg hc] at hnext
        cases hnext
        obtain ⟨inner, ds, rfl, hinner, hds⟩ := hunwinds hq
        exact ⟨c :: inner, ds, rfl, mt List.mem_cons.1 (not_or.2 ⟨Ne.symm hc, hinner⟩), hds⟩
    | none =>
      show Unwinds stack o (c :: cs) m'.opens
      by_cases hplain : IsPlain c ∨ (c = '\'' ∧ o = false)
      · rw [Mode.next_plain hplain] at hnext
        cases hnext
        have hitem : ∀ ds o', Closed (opensNext o c) ds o' → Closed o ([c] ++ ds) o' :=
          fun ds o' hds => .plain hplain hds
        exact hunwinds.prepend hitem
      by_cases hq : c = '"' ∨ (c = '\'' ∧ o = true)
      · rw [Mode.next_quote hq] at hnext
        cases hnext
        obtain ⟨inner, ds, rfl, hinner, hds⟩ := hunwinds (hq.imp_right And.left)
        exact hds.quote hq hinner
      by_cases hopen : c = '(' ∨ c = '['
      · rw [Mode.next_open hopen] at hnext
        cases hnext
        exact hunwinds.enclose hopen
      · have hclose : c = ')' ∨ c = ']' := by
          simp only [IsPlain, List.mem_cons, List.not_mem_nil, or_false] at hplain
          grind
        obtain ⟨b, stack', rfl, rfl, rfl⟩ := Mode.exists_of_next_close hclose hnext
        exact ⟨[], o, cs, rfl, .nil, hunwinds⟩

/-- **Following the characters of a text comes to the same as its grammar.** -/
theorem closed_iff : Closed o cs o' ↔ Mode.after ⟨o, none, []⟩ cs = some ⟨o', none, []⟩ := by
  constructor
  · intro h
    have hafter := h.after [] []
    rwa [List.append_nil] at hafter
  · exact fun h => unwinds_of_after h ⟨rfl, rfl⟩

theorem Closed.append {o₁ : Bool} (h : Closed o cs o₁) (h' : Closed o₁ ds o') :
    Closed o (cs ++ ds) o' := by
  rw [closed_iff, Mode.after_append, closed_iff.1 h]
  exact closed_iff.1 h'

/-- A text that ends outside, from where no quotation or bracket is open. -/
theorem exists_closed_of_after (h : Mode.after ⟨o, none, []⟩ cs = some m) (hm : m.IsTop) :
    ∃ o', Closed o cs o' := by
  obtain ⟨o', quote, stack⟩ := m
  obtain ⟨rfl, rfl⟩ : quote = none ∧ stack = [] := hm
  exact ⟨o', closed_iff.2 h⟩

theorem outside_iff : Outside cs ↔ Balanced cs := by
  constructor
  · rintro ⟨o, h⟩
    exact ⟨_, closed_iff.1 h, rfl, rfl⟩
  · rintro ⟨m, hafter, hm⟩
    exact exists_closed_of_after hafter hm

end Rulebook.TopLevel
