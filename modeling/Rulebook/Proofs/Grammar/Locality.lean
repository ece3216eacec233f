import Rulebook.Proofs.Grammar.Lexing
import Rulebook.Proofs.Text.Slice

/-!
# Tokens of a slice

Tokens stand in the text one behind the other (`placed_of_scanFrom`), and scanning is local.  When a
list of tokens that ends with a closing bracket or parenthesis is cut out of those of a text, it is
what is scanned in the slice of the text where it stands:

    scanFrom 0 cs = .ok (before ++ ts ++ after)
      →  scanFrom 0 (the slice of ts) = .ok (ts, moved to the front)                (scan_slice)
-/

namespace Rulebook

/-- The span in a text that begins at byte `n`. -/
def Span.back (n : Nat) (s : Span) : Span := ⟨s.start - n, s.stop - n⟩

namespace Token

open Text

/-- The token in a text that begins at byte `n`. -/
def back (n : Nat) (t : Token) : Token := ⟨t.kind, t.span.back n⟩

/-- The tokens stand in the text one behind the other, and are spelled as their kinds say. -/
structure Placed (text : List Char) (ts : List Token) : Prop where
  ordered : ts.Pairwise fun t u => t.span.stop ≤ u.span.start
  spelled : ∀ t ∈ ts, ∃ cs, Spelled t.kind cs ∧ IsSlice text t.span.start t.span.stop cs

variable {text cs ds rest : List Char} {ts us before after : List Token} {t e : Token}
  {position stop n : Nat} {kind : TokenKind} {c x : Char}

theorem Placed.sublist (h : Placed text ts) (hus : us.Sublist ts) : Placed text us :=
  ⟨h.ordered.sublist hus, fun t ht => h.spelled t (hus.subset ht)⟩

theorem Placed.start_le (h : Placed text ts) (ht : t ∈ ts) : t.span.start ≤ t.span.stop := by
  obtain ⟨cs, -, hcs⟩ := h.spelled t ht
  rw [hcs.stop_eq]
  exact Nat.le_add_right _ _

theorem scanFrom_nil : scanFrom position [] = .ok [] := by
  unfold scanFrom
  rfl

theorem scanFrom_space (hc : isSpace c = true) :
    scanFrom position (c :: rest) = scanFrom (position + c.utf8Size) rest := by
  conv_lhs => unfold scanFrom
  exact if_pos hc

theorem scanFrom_token (hc : isSpace c = false) (hk : lexeme c rest = .ok (kind, n))
    (hts : scanFrom (position + byteLength (c :: rest.take n)) (rest.drop n) = .ok ts) :
    scanFrom position (c :: rest) =
      .ok (⟨kind, ⟨position, position + byteLength (c :: rest.take n)⟩⟩ :: ts) := by
  conv_lhs => unfold scanFrom
  rw [if_neg (by simp [hc]), hk]
  simp only [hts]

theorem placed_of_scanFrom (hcs : IsSlice text position stop cs)
    (h : scanFrom position cs = .ok ts) :
    Placed text ts ∧ ∀ t ∈ ts, position ≤ t.span.start := by
  fun_induction scanFrom position cs generalizing ts with
  | case1 =>
    cases h
    exact ⟨⟨.nil, List.forall_mem_nil _⟩, List.forall_mem_nil _⟩
  | case2 position c rest hc ih =>
    have hrest : IsSlice text position stop ([c] ++ rest) := hcs
    obtain ⟨hplaced, hle⟩ := ih hrest.back h
    exact ⟨hplaced, fun t ht => Nat.le_trans (Nat.le_add_right _ _) (hle t ht)⟩
  | case3 => cases h
  | case4 position c rest hc kind n hk stop' ts' hts =>
    rename_i ih
    cases h
    have htext : c :: rest = (c :: rest.take n) ++ rest.drop n := by simp
    rw [htext] at hcs
    obtain ⟨hplaced, hle⟩ := ih hcs.back hts
    have hspelled := (lexeme_spelled (by simpa using hc) hk).2
    refine ⟨⟨List.pairwise_cons.2 ⟨hle, hplaced.ordered⟩, ?_⟩, ?_⟩
    · rw [List.forall_mem_cons]
      exact ⟨⟨_, hspelled, hcs.front⟩, hplaced.spelled⟩
    · rw [List.forall_mem_cons]
      exact ⟨Nat.le_refl _, fun t ht => Nat.le_trans (Nat.le_add_right _ _) (hle t ht)⟩
  | case5 => cases h

/-! ## Moving and cutting off -/

/-- The same text at an earlier position. -/
theorem scanFrom_back {k : Nat} (hk : k ≤ position) (h : scanFrom position cs = .ok ts) :
    scanFrom (position - k) cs = .ok (ts.map (back k)) := by
  fun_induction scanFrom position cs generalizing ts with
  | case1 =>
    cases h
    exact scanFrom_nil
  | case2 position c rest hc ih =>
    have hrest := ih (by omega) h
    rwa [scanFrom_space hc, ← Nat.sub_add_comm hk]
  | case3 => cases h
  | case4 position c rest hc kind n hlex stop' ts' hts =>
    rename_i ih
    cases h
    have hstop : position + byteLength (c :: rest.take n) - k =
        position - k + byteLength (c :: rest.take n) := Nat.sub_add_comm hk
    have hrest : scanFrom (position - k + byteLength (c :: rest.take n)) (rest.drop n) =
        .ok (ts'.map (back k)) := by
      rw [← hstop]
      exact ih (Nat.le_trans hk (Nat.le_add_right _ _)) hts
    rw [scanFrom_token (by simpa using hc) hlex hrest, ← hstop]
    rfl
  | case5 => cases h

/-- The text from a token on has the tokens from there on. -/
theorem scanFrom_suffix (h : scanFrom position cs = .ok (before ++ t :: ts)) :
    ∃ front back, cs = front ++ back ∧ t.span.start = position + byteLength front ∧
      scanFrom t.span.start back = .ok (t :: ts) := by
  fun_induction scanFrom position cs generalizing before with
  | case1 => simp at h
  | case2 position c rest hc ih =>
    obtain ⟨front, back, rfl, hstart, hback⟩ := ih h
    refine ⟨c :: front, back, rfl, ?_, hback⟩
    rw [hstart, Nat.add_assoc]
    rfl
  | case3 => cases h
  | case4 position c rest hc kind n hlex stop' ts' hts =>
    rename_i ih
    rw [Except.ok.injEq] at h
    cases before with
    | nil =>
      rw [List.nil_append, List.cons.injEq] at h
      obtain ⟨rfl, rfl⟩ := h
      exact ⟨[], c :: rest, rfl, rfl, scanFrom_token (by simpa using hc) hlex hts⟩
    | cons u before =>
      rw [List.cons_append, List.cons.injEq] at h
      obtain ⟨-, rfl⟩ := h
      obtain ⟨front, back, hrest, hstart, hback⟩ := ih hts
      refine ⟨(c :: rest.take n) ++ front, back, ?_, ?_, hback⟩
      · rw [List.append_assoc, ← hrest, List.cons_append, List.take_append_drop]
      · rw [hstart, byteLength_append, ← Nat.add_assoc]
  | case5 => cases h

/-! ## Ending at a closing character -/

/-- The characters of the tokens that close. -/
def IsCloser (x : Char) : Prop := x = ']' ∨ x = ')'

theorem startsWith_cut (p : Char → Bool) :
    startsWith p (cs ++ x :: ds) = startsWith p (cs ++ [x]) := by
  cases cs <;> rfl

theorem IsCloser.wordLength (hx : IsCloser x) : Token.wordLength (x :: ds) = 0 :=
  wordLength_eq_zero (.inr (by rcases hx with rfl | rfl <;> decide))

theorem wordLength_cut (hx : IsCloser x) :
    wordLength (cs ++ x :: ds) = wordLength (cs ++ [x]) ∧
      wordLength (cs ++ x :: ds) ≤ cs.length := by
  induction cs with
  | nil => exact ⟨hx.wordLength.trans hx.wordLength.symm, Nat.le_of_eq hx.wordLength⟩
  | cons c cs ih =>
    have hc : continuesWord c (cs ++ x :: ds) = continuesWord c (cs ++ [x]) := by
      unfold continuesWord
      rw [startsWith_cut]
    simp only [List.cons_append, wordLength_cons, hc, ih.1, List.length_cons]
    refine ⟨trivial, ?_⟩
    have hle := ih.2
    rw [ih.1] at hle
    split <;> omega

theorem wordToken_cut (hx : IsCloser x) :
    wordToken c (cs ++ x :: ds) = wordToken c (cs ++ [x]) := by
  obtain ⟨heq, hle⟩ : Token.wordLength (cs ++ x :: ds) = Token.wordLength (cs ++ [x]) ∧
      Token.wordLength (cs ++ x :: ds) ≤ cs.length := wordLength_cut hx
  unfold wordToken
  dsimp only
  rw [← heq, List.take_append_of_le_length hle, List.take_append_of_le_length hle]

theorem lexeme_quote (hc : c = '"' ∨ c = '\'') : lexeme c rest =
    match cutOnce c rest with
    | some (text, _) => .ok (.quoted (String.ofList text), text.length + 1)
    | none => .error .unterminatedQuote := by
  rcases hc with rfl | rfl <;> rfl

/-- A token that ends before a closing character is the same where the text ends there. -/
theorem lexeme_cut (hx : IsCloser x) (h : lexeme c (cs ++ x :: ds) = .ok (kind, n))
    (hn : n ≤ cs.length) : lexeme c (cs ++ [x]) = .ok (kind, n) := by
  by_cases hc : c = '"' ∨ c = '\''
  · rw [lexeme_quote hc] at h ⊢
    split at h
    · next quoted after hcut =>
      cases h
      obtain ⟨htext, hnot⟩ := cutOnce_eq_some hcut
      -- the quotation ends within `cs`
      have hcs : cs = quoted ++ c :: (cs.drop (quoted.length + 1)) := by
        have htake := congrArg (List.take (quoted.length + 1)) htext
        rw [List.take_append_of_le_length hn, List.take_append,
          List.take_of_length_le (Nat.le_succ _), Nat.add_sub_cancel_left, List.take_succ_cons,
          List.take_zero] at htake
        calc cs = cs.take (quoted.length + 1) ++ cs.drop (quoted.length + 1) :=
              (List.take_append_drop _ _).symm
          _ = _ := by rw [htake, List.append_assoc, List.singleton_append]
      rw [hcs, List.append_assoc, List.cons_append, cutOnce_append hnot]
    · cases h
  · simp only [lexeme, startsWith_cut, wordToken_cut hx, if_neg hc] at h ⊢
    exact h

/-- A token that closes is a single character. -/
theorem closer_of_lexeme (hc : isSpace c = false) (h : lexeme c rest = .ok (kind, n))
    (hkind : kind = .closeBracket ∨ kind = .closeParen) :
    IsCloser c ∧ n = 0 ∧ ∀ ds, lexeme c ds = .ok (kind, 0) := by
  obtain ⟨hn, hspelled⟩ := lexeme_spelled hc h
  have hone : ∃ x, IsCloser x ∧ c :: rest.take n = [x] := by
    generalize c :: rest.take n = word at hspelled
    rcases hkind with rfl | rfl
    · cases hspelled
      exact ⟨']', .inl rfl, rfl⟩
    · cases hspelled
      exact ⟨')', .inr rfl, rfl⟩
  obtain ⟨x, hx, hword⟩ := hone
  obtain ⟨rfl, htake⟩ := List.cons.inj hword
  obtain rfl : n = 0 := by
    have hlength := congrArg List.length htake
    rw [List.length_take, Nat.min_eq_left hn] at hlength
    exact hlength
  refine ⟨hx, rfl, fun ds => ?_⟩
  rcases hx with rfl | rfl <;> simpa [lexeme] using h

/-- The text up to the end of a token that closes has the tokens up to it. -/
theorem scanFrom_prefix (he : e.kind = .closeBracket ∨ e.kind = .closeParen)
    (h : scanFrom position cs = .ok (ts ++ e :: after)) :
    ∃ front x back, IsCloser x ∧ cs = front ++ x :: back ∧
      e.span.stop = position + byteLength (front ++ [x]) ∧
      scanFrom position (front ++ [x]) = .ok (ts ++ [e]) := by
  fun_induction scanFrom position cs generalizing ts with
  | case1 => simp at h
  | case2 position c rest hc ih =>
    obtain ⟨front, x, back, hx, rfl, hstop, hfront⟩ := ih h
    refine ⟨c :: front, x, back, hx, rfl, ?_, ?_⟩
    · rw [hstop, Nat.add_assoc]
      rfl
    · rw [List.cons_append, scanFrom_space hc, hfront]
  | case3 => cases h
  | case4 position c rest hc kind n hlex stop' ts' hts =>
    rename_i ih
    rw [Except.ok.injEq] at h
    have hspace : isSpace c = false := by simpa using hc
    cases ts with
    | nil =>
      rw [List.nil_append, List.cons.injEq] at h
      obtain ⟨rfl, rfl⟩ := h
      obtain ⟨hx, rfl, hlex'⟩ := closer_of_lexeme hspace hlex he
      refine ⟨[], c, rest, hx, rfl, rfl, ?_⟩
      exact scanFrom_token hspace (hlex' []) scanFrom_nil
    | cons u ts =>
      rw [List.cons_append, List.cons.injEq] at h
      obtain ⟨rfl, rfl⟩ := h
      obtain ⟨front, x, back, hx, hrest, hstop, hfront⟩ := ih hts
      have hle : n ≤ rest.length := (lexeme_spelled hspace hlex).1
      have hlength : (rest.take n).length = n := by rw [List.length_take, Nat.min_eq_left hle]
      have hsplit : rest = (rest.take n ++ front) ++ x :: back := by
        rw [List.append_assoc, ← hrest, List.take_append_drop]
      have hcut : lexeme c ((rest.take n ++ front) ++ [x]) = .ok (kind, n) := by
        rw [hsplit] at hlex
        refine lexeme_cut hx hlex ?_
        rw [List.length_append, hlength]
        exact Nat.le_add_right _ _
      have htake : ((rest.take n ++ front) ++ [x]).take n = rest.take n := by
        rw [List.append_assoc]
        exact List.take_left' hlength
      have hdrop : ((rest.take n ++ front) ++ [x]).drop n = front ++ [x] := by
        rw [List.append_assoc]
        exact List.drop_left' hlength
      refine ⟨c :: (rest.take n ++ front), x, back, hx, ?_, ?_, ?_⟩
      · rw [List.cons_append, ← hsplit]
      · have hbytes : byteLength (c :: (rest.take n ++ front) ++ [x]) =
            byteLength (c :: rest.take n) + byteLength (front ++ [x]) := by
          rw [← byteLength_append]
          simp
        rw [hbytes, ← Nat.add_assoc]
        exact hstop
      · have hrest' : scanFrom (position + byteLength (c :: ((rest.take n ++ front) ++ [x]).take n))
            (((rest.take n ++ front) ++ [x]).drop n) = .ok (ts ++ [e]) := by
          rw [htake, hdrop]
          exact hfront
        have hscan := scanFrom_token hspace hcut hrest'
        rw [htake] at hscan
        exact hscan
  | case5 => cases h

/-- Tokens up to one that closes are those of the slice where they stand. -/
theorem scan_slice (hcs : IsSlice text position stop cs)
    (he : e.kind = .closeBracket ∨ e.kind = .closeParen) (hne : t :: ts = us ++ [e])
    (h : scanFrom position cs = .ok (before ++ (t :: ts) ++ after)) :
    ∃ slice, IsSlice text t.span.start e.span.stop slice ∧
      scanFrom 0 slice = .ok ((t :: ts).map (back t.span.start)) := by
  rw [List.append_assoc, List.cons_append] at h
  obtain ⟨front, rest, rfl, hstart, hrest⟩ := scanFrom_suffix h
  rw [← List.cons_append, hne, List.append_assoc, List.singleton_append] at hrest
  obtain ⟨slice, x, back', hx, rfl, hstop, hslice⟩ := scanFrom_prefix he hrest
  have hback := hcs.back
  rw [← hstart, ← List.singleton_append, ← List.append_assoc] at hback
  refine ⟨slice ++ [x], hstop ▸ hback.front, ?_⟩
  have hmoved := scanFrom_back (Nat.le_refl _) hslice
  rwa [Nat.sub_self, ← hne] at hmoved

end Token

end Rulebook
