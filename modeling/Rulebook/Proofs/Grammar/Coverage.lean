import Rulebook.Proofs.Grammar.Locality

/-!
# The tokens of a text and the text

Tokens stand in the text in order and apart, each as its kind is spelled, and what is not of a token
is white space (`tokens_cover`).  A token is read from its own characters: it is the same when
nothing comes after them, or when white space does:

    lexeme c rest = .ok (kind, n)  →  lexeme c (rest.take n ++ ds) = .ok (kind, n)
-/

namespace Rulebook.Token

open Text

variable {text cs ds rest : List Char} {ts : List Token} {t : Token} {position stop n : Nat}
  {kind : TokenKind} {c : Char}

/-! ## What white space ends -/

/-- The text is empty or begins with white space. -/
def Clear (ds : List Char) : Prop := ∀ d ∈ ds.head?, isSpace d = true

namespace Clear

theorem nil : Clear [] := nofun

theorem of_all (hne : cs ≠ []) (h : ∀ c ∈ cs, isSpace c = true) (ds : List Char) :
    Clear (cs ++ ds) := by
  obtain ⟨c, cs, rfl⟩ := List.exists_cons_of_ne_nil hne
  rintro d ⟨⟩
  exact h c List.mem_cons_self

theorem startsWith (h : Clear ds) {p : Char → Bool} (hp : ∀ d, isSpace d = true → p d = false) :
    Token.startsWith p ds = false := by
  cases ds with
  | nil => rfl
  | cons d ds => exact hp d (h d rfl)

theorem not_followed (h : Clear ds) {d : Char} (hd : isSpace d = false) :
    Token.startsWith (· == d) ds = false := by
  refine h.startsWith fun e he => beq_eq_false_iff_ne.2 ?_
  rintro rfl
  simp [hd] at he

theorem wordLength (h : Clear ds) : Token.wordLength ds = 0 := by
  cases ds with
  | nil => rfl
  | cons d ds => exact wordLength_eq_zero (.inl (h d rfl))

end Clear

/-- What a word begins with, it begins with when it is cut out. -/
theorem startsWith_take_append {p : Char → Bool} (hp : ∀ d, p d = true → IsNameChar d)
    (h : startsWith p cs = true) (ds : List Char) :
    startsWith p (cs.take (wordLength cs) ++ ds) = true := by
  cases cs with
  | nil => cases h
  | cons d cs =>
    rw [wordLength_cons, if_pos ((hp d h).continuesWord cs)]
    exact h

/-- A word ends where it did when white space follows it. -/
theorem wordLength_take_append (h : Clear ds) :
    wordLength (cs.take (wordLength cs) ++ ds) = wordLength cs := by
  induction cs with
  | nil => exact h.wordLength
  | cons c cs ih =>
    rw [wordLength_cons]
    split
    · next hc =>
      have hc' : continuesWord c (cs.take (wordLength cs) ++ ds) = true := by
        unfold continuesWord at hc ⊢
        split at hc
        · next hdash =>
          rw [if_pos hdash]
          exact startsWith_take_append (fun d hd => .inl (isWordChar_of_isDigit hd)) hc ds
        · next hdash => rwa [if_neg hdash]
      rw [List.take_succ_cons, List.cons_append, wordLength_cons, if_pos hc', ih]
    · rw [List.take_zero]
      exact h.wordLength

theorem wordToken_take_append (h : Clear ds) :
    wordToken c (rest.take (wordLength rest) ++ ds) = wordToken c rest := by
  have hlength : (rest.take (wordLength rest)).length = wordLength rest := by
    rw [List.length_take, Nat.min_eq_left (wordLength_le rest)]
  unfold wordToken
  dsimp only
  rw [wordLength_take_append h, List.take_left' hlength]

/-! ## A token cut out -/

theorem lexeme_pair {d : Char} (h : startsWith (· == d) rest = true)
    (hk : lexeme c (d :: ds) = .ok (kind, 1)) : lexeme c (rest.take 1 ++ ds) = .ok (kind, 1) := by
  obtain ⟨cs, rfl⟩ := eq_cons_of_startsWith h
  exact hk

/-- A hyphen is of a word when what begins a number follows it. -/
theorem lexeme_hyphen : lexeme '-' rest =
    if startsWith (fun d => isDigit d || d == '.') rest then .ok (wordToken '-' rest)
    else .ok (.dash, 0) := rfl

theorem hyphen_take_append (hds : Clear ds) (h : lexeme '-' rest = .ok (kind, n)) :
    lexeme '-' (rest.take n ++ ds) = .ok (kind, n) := by
  have hname : ∀ d, (isDigit d || d == '.') = true → IsNameChar d := by
    intro d hd
    rcases Bool.or_eq_true_iff.1 hd with hd | hd
    · exact .inl (isWordChar_of_isDigit hd)
    · exact .inr (beq_iff_eq.1 hd)
  rw [lexeme_hyphen] at h ⊢
  split at h
  · next hnumeral =>
    rw [Except.ok.injEq] at h
    obtain rfl : wordLength rest = n := congrArg Prod.snd h
    rw [if_pos (startsWith_take_append hname hnumeral ds), wordToken_take_append hds, h]
  · cases h
    have hnone : startsWith (fun d => isDigit d || d == '.') ds = false := by
      refine hds.startsWith fun d hd => Bool.eq_false_iff.2 fun hname' => ?_
      simp [(hname d hname').plain.1] at hd
    rw [List.take_zero, List.nil_append, if_neg (Bool.eq_false_iff.1 hnone)]

theorem quote_take_append (hc : c = '"' ∨ c = '\'') (h : lexeme c rest = .ok (kind, n)) :
    lexeme c (rest.take n ++ ds) = .ok (kind, n) := by
  rw [lexeme_quote hc] at h ⊢
  split at h
  · next quoted after hcut =>
    cases h
    obtain ⟨rfl, hnot⟩ := cutOnce_eq_some hcut
    have htake : (quoted ++ c :: after).take (quoted.length + 1) ++ ds = quoted ++ c :: ds := by
      rw [List.take_append, List.take_of_length_le (Nat.le_succ _), Nat.add_sub_cancel_left,
        List.take_succ_cons, List.take_zero, List.append_assoc, List.singleton_append]
    rw [htake, cutOnce_append hnot]
  · cases h

/-- A token is the same when it is cut out and white space follows it. -/
theorem lexeme_take_append (hds : Clear ds) (h : lexeme c rest = .ok (kind, n)) :
    lexeme c (rest.take n ++ ds) = .ok (kind, n) := by
  have halone : ∀ d, isSpace d = false → ¬startsWith (· == d) ds = true := by
    intro d hd
    rw [hds.not_followed hd]
    exact Bool.false_ne_true
  have hlex := h
  unfold lexeme at h
  dsimp only at h
  split at h
  · cases h; rfl
  · cases h; rfl
  · cases h; rfl
  · cases h; rfl
  · cases h; rfl
  · split at h
    · next hf => cases h; exact lexeme_pair hf rfl
    · cases h; exact if_neg (halone '|' rfl)
  · split at h
    · next hf => cases h; exact lexeme_pair hf rfl
    · cases h
  · split at h
    · next hf => cases h; exact lexeme_pair hf rfl
    · cases h; exact if_neg (halone '=' rfl)
  · split at h
    · next hf => cases h; exact lexeme_pair hf rfl
    · split at h
      · next hf => cases h; exact lexeme_pair hf rfl
      · cases h; exact (if_neg (halone '=' rfl)).trans (if_neg (halone '>' rfl))
  · split at h
    · next hf => cases h; exact lexeme_pair hf rfl
    · cases h
  · cases h; rfl
  · exact hyphen_take_append hds hlex
  · split at h
    · next hq => exact quote_take_append hq hlex
    · next hdash hq =>
      rw [Except.ok.injEq] at h
      obtain rfl : wordLength rest = n := congrArg Prod.snd h
      have hspecial : isSpecial c = false := by
        rw [not_or] at hq
        simp_all [isSpecial]
      rw [lexeme_of_plain hspecial (by simpa using hdash), wordToken_take_append hds, h]

/-! ## Tokens by themselves -/

/-- The characters are a token of the kind by themselves, and before white space. -/
def Stands (kind : TokenKind) (cs : List Char) : Prop :=
  ∃ c rest, cs = c :: rest ∧ isSpace c = false ∧
    ∀ ds, Clear ds → lexeme c (rest ++ ds) = .ok (kind, rest.length)

theorem stands_of_lexeme (hc : isSpace c = false) (h : lexeme c rest = .ok (kind, n)) :
    Stands kind (c :: rest.take n) := by
  have hlength : (rest.take n).length = n := by
    rw [List.length_take, Nat.min_eq_left (lexeme_spelled hc h).1]
  refine ⟨c, rest.take n, rfl, hc, fun ds hds => ?_⟩
  rw [hlength]
  exact lexeme_take_append hds h

namespace Stands

theorem byteLength_pos (h : Stands kind cs) : 0 < byteLength cs := by
  obtain ⟨c, rest, rfl, -⟩ := h
  exact Nat.add_pos_left c.utf8Size_pos _

theorem spelled (h : Stands kind cs) : Spelled kind cs := by
  obtain ⟨c, rest, rfl, hc, hlex⟩ := h
  have hspelled := (lexeme_spelled hc (hlex [] .nil)).2
  rwa [List.append_nil, List.take_length] at hspelled

/-- What is scanned in the characters of a token is that token. -/
theorem scan (h : Stands kind cs) :
    Token.scan (String.ofList cs) = .ok [⟨kind, ⟨0, byteLength cs⟩⟩] := by
  obtain ⟨c, rest, rfl, hc, hlex⟩ := h
  have hk := hlex [] .nil
  rw [List.append_nil] at hk
  have hnone : scanFrom (0 + byteLength (c :: rest.take rest.length)) (rest.drop rest.length) =
      .ok [] := by
    rw [List.drop_length, scanFrom_nil]
  have htoken := scanFrom_token hc hk hnone
  rw [List.take_length, Nat.zero_add] at htoken
  rw [Token.scan, String.toList_ofList]
  exact htoken

end Stands

theorem stands_of_scanFrom (hcs : IsSlice text position stop cs)
    (h : scanFrom position cs = .ok ts) :
    ∀ t ∈ ts, ∃ ds, IsSlice text t.span.start t.span.stop ds ∧ Stands t.kind ds := by
  fun_induction scanFrom position cs generalizing ts with
  | case1 =>
    cases h
    exact List.forall_mem_nil _
  | case2 position c rest hc ih =>
    have hrest : IsSlice text position stop ([c] ++ rest) := hcs
    exact ih hrest.back h
  | case3 => cases h
  | case4 position c rest hc kind n hk stop' ts' hts =>
    rename_i ih
    cases h
    have htext : c :: rest = (c :: rest.take n) ++ rest.drop n := by simp
    rw [htext] at hcs
    rw [List.forall_mem_cons]
    exact ⟨⟨_, hcs.front, stands_of_lexeme (by simpa using hc) hk⟩, ih hcs.back hts⟩
  | case5 => cases h

/-- A character that is in no token is white space. -/
theorem isSpace_of_scanFrom {before after : List Char}
    (h : scanFrom position (before ++ c :: after) = .ok ts)
    (hout : ∀ t ∈ ts, position + byteLength before < t.span.start ∨
      t.span.stop ≤ position + byteLength before) : isSpace c = true := by
  generalize hcs : before ++ c :: after = cs at h
  fun_induction scanFrom position cs generalizing ts before with
  | case1 => simp at hcs
  | case2 position d rest hd ih =>
    cases before with
    | nil =>
      obtain ⟨rfl, -⟩ := List.cons.inj hcs
      exact hd
    | cons d' before =>
      obtain ⟨rfl, hrest⟩ := List.cons.inj hcs
      refine ih ?_ hrest h
      simpa only [byteLength, Nat.add_assoc] using hout
  | case3 => cases h
  | case4 position d rest hd kind n hk stop' ts' hts =>
    rename_i ih
    cases h
    obtain ⟨hhead, hout⟩ := List.forall_mem_cons.1 hout
    have hword : d :: rest = (d :: rest.take n) ++ rest.drop n := by simp
    -- the character stands behind the token, for the token covers what it begins with
    obtain ⟨front, rfl⟩ : d :: rest.take n <+: before :=
      isPrefix_of_byteLength_le ⟨_, hword.symm⟩ ⟨_, hcs⟩ (by dsimp only at hhead; omega)
    rw [hword, List.append_assoc] at hcs
    rw [byteLength_append, ← Nat.add_assoc] at hout
    exact ih hout (List.append_cancel_left hcs) hts
  | case5 => cases h

/-- **The tokens of a text cover it** but for white space.  They are not empty and stand in order
and apart, between characters of the text; each is spelled as its kind says, and its characters
alone are scanned as that token, so that they determine its kind. -/
theorem tokens_cover {text : String} {ts : List Token} (h : scan text = .ok ts) :
    (∀ t ∈ ts, t.span.start < t.span.stop) ∧
    (ts.Pairwise fun t u => t.span.stop ≤ u.span.start) ∧
    (∀ t ∈ ts, ∃ cs, IsSlice text.toList t.span.start t.span.stop cs ∧ Spelled t.kind cs ∧
      scan (String.ofList cs) = .ok [⟨t.kind, ⟨0, byteLength cs⟩⟩]) ∧
    (∀ before c after, text.toList = before ++ c :: after →
      (∀ t ∈ ts, byteLength before < t.span.start ∨ t.span.stop ≤ byteLength before) →
        isSpace c = true) := by
  have hstands := stands_of_scanFrom (IsSlice.whole text.toList) h
  refine ⟨fun t ht => ?_, (placed_of_scanFrom (IsSlice.whole text.toList) h).1.ordered,
    fun t ht => ?_, fun before c after htext hout => ?_⟩
  · obtain ⟨cs, hslice, hcs⟩ := hstands t ht
    rw [hslice.stop_eq]
    exact Nat.lt_add_of_pos_right hcs.byteLength_pos
  · obtain ⟨cs, hslice, hcs⟩ := hstands t ht
    exact ⟨cs, hslice, hcs.spelled, hcs.scan⟩
  · rw [scan, htext] at h
    refine isSpace_of_scanFrom h ?_
    simpa only [Nat.zero_add] using hout

/-- A letter of two bytes, and white space that is quoted. -/
theorem tokens_cover_accent :
    let text := " é>='a b'-f "
    let ts : List Token := [⟨.word "é", ⟨1, 3⟩⟩, ⟨.operator ">=", ⟨3, 5⟩⟩, ⟨.quoted "a b", ⟨5, 10⟩⟩,
      ⟨.dash, ⟨10, 11⟩⟩, ⟨.word "f", ⟨11, 12⟩⟩]
    scan text = .ok ts ∧ (ts.Pairwise fun t u => t.span.stop ≤ u.span.start) ∧
      ∃ cs, IsSlice text.toList 5 10 cs ∧ Spelled (.quoted "a b") cs ∧
        scan (String.ofList cs) = .ok [⟨.quoted "a b", ⟨0, byteLength cs⟩⟩] := by
  intro text ts
  have hscan : (scan text).toOption = some ts := by decide +kernel
  obtain ⟨-, hordered, hslices, -⟩ := tokens_cover (eq_ok_of_toOption hscan)
  exact ⟨eq_ok_of_toOption hscan, hordered, hslices ⟨.quoted "a b", ⟨5, 10⟩⟩ (by simp [ts])⟩

end Rulebook.Token
