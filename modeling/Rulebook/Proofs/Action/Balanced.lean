import Rulebook.Proofs.Action.Cutting
import Rulebook.Proofs.Outcome

/-!
# Balanced texts

`Mode.next` follows the quotes and brackets of a text, one character after the other, and where no
cut is made a scan does the same (`step_next`).  A text that ends outside quotes and brackets is
balanced, and within brackets it is taken whole:

    Balanced cs,  base ≠ []   →   Takes sep s cs rest base false

The pieces with the separator between them are the text (`intercalate_piecesFrom`).
-/

namespace Rulebook.TopLevel

open Text

/-- What is known of the text before a character, positions apart. -/
structure Mode where
  /-- Whether a token can begin. -/
  opens : Bool
  quote : Option Char
  /-- Open brackets and parentheses, the innermost first. -/
  stack : List Char

namespace Mode

/-- Outside quotes, brackets and parentheses. -/
def IsTop (m : Mode) : Prop := m.quote = none ∧ m.stack = []

/-- Whether a token can begin after the character. -/
def opensAfter (m : Mode) (c : Char) : Bool := if isSpace c then m.opens else opensToken (some c)

/-- The mode after a character, unless that closes what is not open. -/
def next (m : Mode) (c : Char) : Option Mode :=
  match m.quote with
  | some q => some ⟨m.opensAfter c, if c = q then none else some q, m.stack⟩
  | none =>
    if c = '"' ∨ (c = '\'' ∧ m.opens = true) then some ⟨m.opensAfter c, some c, m.stack⟩
    else if c = '(' ∨ c = '[' then some ⟨m.opensAfter c, none, c :: m.stack⟩
    else if c = ')' ∨ c = ']' then
      match m.stack with
      | o :: stack =>
        if (c = ')' ∧ o = '(') ∨ (c = ']' ∧ o = '[') then some ⟨m.opensAfter c, none, stack⟩
        else none
      | [] => none
    else some ⟨m.opensAfter c, none, m.stack⟩

def after (m : Mode) : List Char → Option Mode
  | [] => some m
  | c :: cs => (m.next c).bind (after · cs)

end Mode

/-- What was opened in the text was closed in it. -/
def Balanced (cs : List Char) : Prop := ∃ m, Mode.after ⟨true, none, []⟩ cs = some m ∧ m.IsTop

/-- A scan in a mode, below the openings in `base`. -/
structure Scan.In (s : Scan) (m : Mode) (base : List Char) : Prop where
  skip : s.skip = 0
  quote : s.quote.map Opening.char = m.quote
  stack : s.stack.map Opening.char = m.stack ++ base
  opens : opensToken s.last = m.opens

variable {sep cs rest base : List Char} {s : Scan} {m m' : Mode} {c : Char}

theorem Scan.In.take {t : Scan} {q : Option Char} {stack : List Char} (h : s.In m base)
    (hlast : t.last = s.last) (hskip : t.skip = 0) (hquote : t.quote.map Opening.char = q)
    (hstack : t.stack.map Opening.char = stack ++ base) :
    (t.take c).In ⟨m.opensAfter c, q, stack⟩ base := by
  refine ⟨hskip, hquote, hstack, ?_⟩
  show opensToken (if isSpace c then t.last else some c) = m.opensAfter c
  rw [hlast, Mode.opensAfter]
  split
  · exact h.opens
  · rfl

theorem Ready.in_mode {opens : Bool} (h : Ready s base opens) :
    s.In ⟨opensToken s.last, none, []⟩ base :=
  ⟨h.skip, by rw [h.quote]; rfl, h.stack, rfl⟩

theorem closes_iff {o : Opening} :
    closes c o = true ↔ (c = ')' ∧ o.char = '(') ∨ (c = ']' ∧ o.char = '[') := by
  simp [closes]

theorem Scan.In.isTop_iff (h : s.In m []) : m.IsTop ↔ s.quote = none ∧ s.stack = [] := by
  rw [Mode.IsTop, ← h.quote, Option.map_eq_none_iff, ← List.append_nil m.stack, ← h.stack,
    List.map_eq_nil_iff]

/-- The condition of a cut, where none is made. -/
theorem Scan.In.not_cut (h : s.In m base)
    (hcut : m.IsTop → base = [] → sep.isPrefixOf (c :: rest) = false) (hquote : s.quote = none) :
    ¬ (s.stack.isEmpty && sep.isPrefixOf (c :: rest)) = true := by
  rw [Bool.and_eq_true, List.isEmpty_iff]
  rintro ⟨hstack, hsep⟩
  obtain rfl : base = [] := by
    have hempty : m.stack ++ base = [] := by rw [← h.stack, hstack, List.map_nil]
    exact (List.append_eq_nil_iff.1 hempty).2
  simp [hcut (h.isTop_iff.2 ⟨hquote, hstack⟩) rfl] at hsep

/-- The scan takes the character, and the mode is this one after it. -/
def Joins (sep : List Char) (s : Scan) (c : Char) (rest base : List Char) (m : Mode) : Prop :=
  ∃ t : Scan, step sep s c rest = .ok (none, t.take c) ∧ (t.take c).In m base ∧
    t.piece = s.piece ∧ t.start = s.start

/-- Where no cut is made, the scan does what the mode does; at the top it fails where that does. -/
theorem step_next (h : s.In m base)
    (hcut : m.IsTop → base = [] → sep.isPrefixOf (c :: rest) = false) :
    match m.next c with
    | some m' => Joins sep s c rest base m'
    | none => base = [] → ∃ e, step sep s c rest = .error e := by
  unfold Mode.next Joins step
  rw [if_neg (show ¬ 0 < s.skip by simp [h.skip]), ← h.quote]
  cases hquote : s.quote with
  | some o =>
    by_cases hc : c = o.char
    · simp only [Option.map_some, if_pos hc]
      exact ⟨_, rfl, h.take rfl h.skip rfl h.stack, rfl, rfl⟩
    · simp only [Option.map_some, if_neg hc]
      exact ⟨_, rfl, h.take rfl h.skip (by rw [hquote]; rfl) h.stack, rfl, rfl⟩
  | none =>
    simp only [Option.map_none, ← h.opens]
    by_cases hopen : c = '"' ∨ (c = '\'' ∧ opensToken s.last = true)
    · simp only [if_pos hopen]
      exact ⟨_, rfl, h.take rfl h.skip rfl h.stack, rfl, rfl⟩
    by_cases hbracket : c = '(' ∨ c = '['
    · simp only [if_neg hopen, if_pos hbracket]
      exact ⟨_, rfl, h.take rfl h.skip rfl (congrArg (c :: ·) h.stack), rfl, rfl⟩
    by_cases hclose : c = ')' ∨ c = ']'
    · simp only [if_neg hopen, if_neg hbracket, if_pos hclose]
      cases hm : m.stack with
      | nil =>
        rintro rfl
        have hs : s.stack = [] := List.map_eq_nil_iff.1 (h.stack.trans (by rw [hm]; rfl))
        simp only [hs]
        exact ⟨_, rfl⟩
      | cons o stack =>
        obtain ⟨p, ps, hs, rfl, hps⟩ := List.map_eq_cons_iff.1 (h.stack.trans (by rw [hm]; rfl))
        by_cases hpair : (c = ')' ∧ p.char = '(') ∨ (c = ']' ∧ p.char = '[')
        · simp only [hs, if_pos hpair, if_pos (closes_iff.2 hpair)]
          exact ⟨_, rfl, h.take rfl h.skip rfl hps, rfl, rfl⟩
        · simp only [hs, if_neg hpair, if_neg (mt closes_iff.1 hpair)]
          exact fun _ => ⟨_, rfl⟩
    · simp only [if_neg hopen, if_neg hbracket, if_neg hclose, if_neg (h.not_cut hcut hquote)]
      exact ⟨_, rfl, h.take rfl h.skip (by rw [hquote]; rfl) h.stack, rfl, rfl⟩

theorem endError_eq_none : s.endError = none ↔ s.quote = none ∧ s.stack = [] := by
  unfold Scan.endError
  cases s.quote <;> cases s.stack <;> simp

theorem in_start (position : Nat) : Scan.In { position, start := position } ⟨true, none, []⟩ [] :=
  ⟨rfl, rfl, rfl, rfl⟩

/-! ## Balance -/

theorem next_space (hc : isSpace c = true) (hm : m.IsTop) : m.next c = some m := by
  obtain ⟨opens, quote, stack⟩ := m
  obtain ⟨rfl, rfl⟩ : quote = none ∧ stack = [] := hm
  have hne : ∀ d, isSpace d = false → c ≠ d := by
    rintro d hd rfl
    simp [hd] at hc
  simp [Mode.next, Mode.opensAfter, hc, hne '"' (by decide), hne '\'' (by decide),
    hne '(' (by decide), hne '[' (by decide), hne ')' (by decide), hne ']' (by decide)]

theorem after_of_isBlank (hcs : isBlank cs = true) (hm : m.IsTop) : m.after cs = some m := by
  induction cs with
  | nil => rfl
  | cons c cs ih =>
    obtain ⟨hc, hcs⟩ := Bool.and_eq_true_iff.1 hcs
    rw [Mode.after, next_space hc hm, Option.bind_some]
    exact ih hcs

theorem balanced_of_isBlank (hcs : isBlank cs = true) : Balanced cs :=
  ⟨_, after_of_isBlank hcs ⟨rfl, rfl⟩, rfl, rfl⟩

/-- From one mode to another at the top, the characters join the piece. -/
theorem takes_after (h : s.In m base) (hbase : base ≠ []) (hafter : m.after cs = some m')
    (hm : m'.IsTop) : Takes sep s cs rest base false := by
  induction cs generalizing s m with
  | nil =>
    cases hafter
    refine .nil ⟨h.skip, ?_, ?_, by simp⟩
    · rw [← Option.map_eq_none_iff, h.quote, hm.1]
    · rw [h.stack, hm.2, List.nil_append]
  | cons c cs ih =>
    obtain ⟨m₁, hnext, hafter⟩ := Option.bind_eq_some_iff.1 hafter
    have hcut : m.IsTop → base = [] → sep.isPrefixOf (c :: (cs ++ rest)) = false :=
      fun _ hnil => absurd hnil hbase
    have hstep := step_next h hcut
    rw [hnext] at hstep
    obtain ⟨t, ht, hin, hpiece, hstart⟩ := hstep
    exact .cons t ht hpiece hstart (ih hin hafter)

/-- Within parentheses a balanced text is taken whole. -/
theorem takes_balanced (hcs : Balanced cs) (hbase : base ≠ []) (h : Ready s base true) :
    Takes sep s cs rest base false := by
  obtain ⟨m, hafter, hm⟩ := hcs
  have hin : s.In ⟨true, none, []⟩ base := h.opens rfl ▸ h.in_mode
  exact takes_after hin hbase hafter hm

/-! ## The text of the pieces -/

theorem piecesFrom_ne_nil {ps : List Piece} (h : piecesFrom sep s cs = .ok ps) : ps ≠ [] := by
  induction cs generalizing s ps with
  | nil =>
    rw [piecesFrom] at h
    split at h
    · cases h
    · cases h
      simp
  | cons c cs ih =>
    rw [piecesFrom] at h
    split at h
    · cases h
    · exact ih h
    · split at h
      · cases h
        simp
      · cases h

/-- What a step that succeeds does with the piece. -/
theorem step_piece {p? : Option Piece} {t : Scan} (h : step sep s c rest = .ok (p?, t)) :
    (0 < s.skip ∧ p? = none ∧ t.piece = s.piece ∧ t.skip = s.skip - 1) ∨
    (s.skip = 0 ∧ p? = none ∧ t.piece = c :: s.piece ∧ t.skip = 0) ∨
    (s.skip = 0 ∧ p? = some ⟨s.start, s.piece.reverse⟩ ∧ sep <+: c :: rest ∧
      t.piece = [] ∧ t.skip = sep.length - 1) := by
  unfold step at h
  by_cases hskip : 0 < s.skip
  · rw [if_pos hskip] at h
    cases h
    exact .inl ⟨hskip, rfl, rfl, rfl⟩
  rw [if_neg hskip] at h
  have hzero : s.skip = 0 := Nat.eq_zero_of_not_pos hskip
  right
  dsimp only at h
  repeat' split at h
  all_goals cases h
  all_goals first
    | exact .inl ⟨hzero, rfl, rfl, hzero⟩
    | next hcut =>
      have hprefix : sep <+: c :: rest :=
        List.isPrefixOf_iff_prefix.1 (Bool.and_eq_true_iff.1 hcut).2
      exact .inr ⟨hzero, rfl, hprefix, rfl, rfl⟩

/-- The pieces with the separator between them are the text. -/
theorem intercalate_piecesFrom (hsep : sep ≠ []) {ps : List Piece}
    (h : piecesFrom sep s cs = .ok ps) :
    List.intercalate sep (ps.map Piece.text) = s.piece.reverse ++ cs.drop s.skip := by
  induction cs generalizing s ps with
  | nil =>
    rw [piecesFrom] at h
    split at h
    · cases h
    · cases h
      rw [List.map_singleton, List.intercalate_singleton, List.drop_nil, List.append_nil]
  | cons c cs ih =>
    rw [piecesFrom] at h
    split at h
    · cases h
    · next t hstep =>
      rw [ih h]
      obtain ⟨hpos, -, hpiece, hskip⟩ | ⟨hzero, -, hpiece, hskip⟩ | ⟨-, ⟨⟩, -⟩ := step_piece hstep
      · obtain ⟨n, hn⟩ := Nat.exists_eq_add_one_of_ne_zero (Nat.pos_iff_ne_zero.1 hpos)
        rw [hpiece, hskip, hn, List.drop_succ_cons, Nat.add_sub_cancel]
      · rw [hpiece, hskip, hzero, List.drop_zero, List.drop_zero, List.reverse_cons,
          List.append_assoc, List.singleton_append]
    · next p t hstep =>
      obtain ⟨-, ⟨⟩, -⟩ | ⟨-, ⟨⟩, -⟩ | ⟨hzero, hp, ⟨tail, htail⟩, hpiece, hskip⟩ := step_piece hstep
      cases hp
      split at h
      · next qs hqs =>
        cases h
        have hne : qs.map Piece.text ≠ [] := by simpa using piecesFrom_ne_nil hqs
        obtain ⟨d, ds, rfl⟩ := List.exists_cons_of_ne_nil hsep
        obtain ⟨rfl, rfl⟩ := List.cons.inj htail
        rw [List.map_cons, List.intercalate_cons_of_ne_nil hne, ih hqs, hpiece, hskip, hzero]
        simp
      · cases h

theorem infix_intercalate {xs : List (List Char)} (h : cs ∈ xs) :
    cs <:+: List.intercalate sep xs := by
  induction xs with
  | nil => cases h
  | cons x xs ih =>
    cases xs with
    | nil =>
      simp only [List.mem_singleton.1 h, List.intercalate_singleton, List.infix_rfl]
    | cons y ys =>
      rw [List.intercalate_cons_cons]
      rcases List.mem_cons.1 h with rfl | h
      · rw [List.append_assoc]
        exact (List.prefix_append _ _).isInfix
      · exact (ih h).trans (List.suffix_append _ _).isInfix

/-- The pieces are parts of the text. -/
theorem infix_of_pieces (hsep : sep ≠ []) {position : Nat} {ps : List Piece} {p : Piece}
    (h : pieces sep position cs = .ok ps) (hp : p ∈ ps) : p.text <:+: cs := by
  have htext : List.intercalate sep (ps.map Piece.text) = cs := intercalate_piecesFrom hsep h
  rw [← htext]
  exact infix_intercalate (List.mem_map_of_mem hp)

/-- A text that is one piece is that piece. -/
theorem text_of_pieces (hsep : sep ≠ []) {position : Nat} {p : Piece}
    (h : pieces sep position cs = .ok [p]) : p.text = cs := by
  have htext := intercalate_piecesFrom hsep h
  simpa using htext

end Rulebook.TopLevel
