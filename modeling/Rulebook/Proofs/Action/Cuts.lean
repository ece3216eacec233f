import Rulebook.Proofs.Action.Closed

/-!
# Cuts at the top level

A piece runs to the first separator that stands outside quotes and brackets, or to the end of the
text.  Behind a separator a token can begin, as at the start of a text, so the scan goes on as if a
text started there (`piecesFrom_more`).  `Cuts` says so without the scan, and nothing else is cut:

    pieces sep base cs = .ok ps   ↔   Cuts sep base cs ps                         (pieces_ok_iff)

**Main result** `pieces_cut_outside`.
-/

namespace Rulebook.TopLevel

open Text

variable {sep cs ds rest : List Char} {o o' : Bool} {c : Char} {s t : Scan} {m m' : Mode}
  {position : Nat} {p : Piece} {ps : List Piece}

/-! ## Separators -/

/-- What opens and closes nothing, while a token can begin after each of its characters. -/
structure IsSeparator (sep : List Char) : Prop where
  ne_nil : sep ≠ []
  plain : ∀ c ∈ sep, IsPlain c
  opens : ∀ c ∈ sep, isSpace c = false ∧ opensToken (some c) = true

theorem isSeparator (h : sep = ['=', '>'] ∨ sep = [',']) : IsSeparator sep := by
  rcases h with rfl | rfl <;>
    exact ⟨by simp, by simp [IsPlain], by simp [isSpace, opensToken]⟩

/-- Behind a separator a token can begin. -/
theorem IsSeparator.closed (h : IsSeparator sep) (o : Bool) : Closed o sep true := by
  obtain ⟨hne, hplain, hopens⟩ := h
  induction sep generalizing o with
  | nil => exact absurd rfl hne
  | cons c sep ih =>
    obtain ⟨hc, hplain⟩ := List.forall_mem_cons.1 hplain
    obtain ⟨⟨hspace, hopen⟩, hopens⟩ := List.forall_mem_cons.1 hopens
    have hnext : opensNext o c = true := by simp [opensNext, hspace, hopen]
    refine .plain (.inl hc) ?_
    rw [hnext]
    cases sep with
    | nil => exact .nil
    | cons d sep => exact ih true (List.cons_ne_nil d sep) hplain hopens

/-- The scan is where a text could begin. -/
structure Scan.Begins (s : Scan) : Prop where
  mode : s.In ⟨true, none, []⟩ []
  piece : s.piece = []
  start : s.start = s.position

/-- The rest of a separator is passed over. -/
theorem exists_begins (sep rest : List Char)
    (hds : ∀ d ∈ ds, isSpace d = false ∧ opensToken (some d) = true) (hskip : s.skip = ds.length)
    (hquote : s.quote = none) (hstack : s.stack = [])
    (hlast : opensToken s.last = true) (hpiece : s.piece = [])
    (hstart : s.start = s.position + byteLength ds) :
    ∃ t, t.Begins ∧ t.position = s.start ∧
      piecesFrom sep s (ds ++ rest) = piecesFrom sep t rest := by
  induction ds generalizing s with
  | nil =>
    have hposition : s.start = s.position := hstart
    exact ⟨s, ⟨⟨hskip, by rw [hquote]; rfl, by rw [hstack]; rfl, hlast⟩, hpiece, hposition⟩,
      hposition.symm, rfl⟩
  | cons d ds ih =>
    obtain ⟨⟨hspace, hopens⟩, hds⟩ := List.forall_mem_cons.1 hds
    have hpos : 0 < s.skip := by simp [hskip]
    have hstep : step sep s d (ds ++ rest) = .ok (none, { s.pass d with skip := s.skip - 1 }) := by
      rw [step, if_pos hpos]
    obtain ⟨t, ht, hposition, hrest⟩ := ih (s := { s.pass d with skip := s.skip - 1 }) hds
      (by simp [hskip]) hquote hstack (by simpa [Scan.pass, hspace] using hopens) hpiece
      (by simp [Scan.pass, hstart, byteLength, Nat.add_assoc])
    refine ⟨t, ht, hposition, ?_⟩
    rw [List.cons_append, piecesFrom, hstep]
    exact hrest

/-- A separator at the top ends the piece, and the scan begins anew behind it. -/
theorem piecesFrom_separator (hsep : IsSeparator sep) (hs : s.In m []) (hm : m.IsTop)
    (rest : List Char) : ∃ t : Scan, t.Begins ∧ t.position = s.position + byteLength sep ∧
      piecesFrom sep s (sep ++ rest) =
        (piecesFrom sep t rest).map (⟨s.start, s.piece.reverse⟩ :: ·) := by
  obtain ⟨hne, hplain, hopens⟩ := hsep
  obtain ⟨c, ds, rfl⟩ := List.exists_cons_of_ne_nil hne
  obtain ⟨hspace, hopen⟩ := hopens c List.mem_cons_self
  obtain ⟨hquote, hstack⟩ := hs.isTop_iff.1 hm
  let u : Scan :=
    { s.pass c with skip := ds.length, piece := [], start := s.position + byteLength (c :: ds) }
  have hstep : step (c :: ds) s c (ds ++ rest) = .ok (some ⟨s.start, s.piece.reverse⟩, u) := by
    have hc := hplain c List.mem_cons_self
    simp only [IsPlain, List.mem_cons, List.not_mem_nil, or_false, not_or] at hc
    simp [step, hs.skip, hquote, hstack, hc, List.isPrefixOf_iff_prefix, u]
  obtain ⟨t, ht, hposition, hrest⟩ := exists_begins (s := u) (c :: ds) rest
    (List.forall_mem_cons.1 hopens).2 rfl hquote hstack
    (by simpa [u, Scan.pass, hspace] using hopen) rfl
    (by simp [u, Scan.pass, byteLength, Nat.add_assoc])
  refine ⟨t, ht, hposition, ?_⟩
  rw [List.cons_append, piecesFrom, hstep, ← hrest]
  dsimp only
  cases piecesFrom (c :: ds) u (ds ++ rest) <;> rfl

theorem step_position {p? : Option Piece} (h : step sep s c rest = .ok (p?, t)) :
    t.position = s.position + c.utf8Size := by
  unfold step at h
  dsimp only at h
  repeat' split at h
  all_goals cases h
  all_goals rfl

/-! ## The first piece -/

/-- From one mode to another, which is at the top, and no separator begins at the top on the way.
After the text comes `rest`. -/
inductive Unseparated (sep rest : List Char) : Mode → List Char → Mode → Prop
  | nil {m : Mode} : m.IsTop → Unseparated sep rest m [] m
  | cons {m m₁ m' : Mode} {c : Char} {cs : List Char} : (m.IsTop → ¬sep <+: c :: (cs ++ rest)) →
      m.next c = some m₁ → Unseparated sep rest m₁ cs m' → Unseparated sep rest m (c :: cs) m'

theorem Unseparated.after (h : Unseparated sep rest m cs m') : m.after cs = some m' ∧ m'.IsTop := by
  induction h with
  | nil hm => exact ⟨rfl, hm⟩
  | cons _ hnext _ ih =>
    rw [Mode.after, hnext]
    exact ih

theorem Unseparated.closed (h : Unseparated sep rest ⟨o, none, []⟩ cs m) : ∃ o', Closed o cs o' :=
  exists_closed_of_after h.after.1 h.after.2

/-- What holds before more text holds on its own. -/
theorem Unseparated.alone (h : Unseparated sep rest m cs m') : Unseparated sep [] m cs m' := by
  induction h with
  | nil hm => exact .nil hm
  | cons hcut hnext _ ih =>
    refine .cons (fun hm h => hcut hm ?_) hnext ih
    rw [List.append_nil] at h
    exact h.trans (List.prefix_append _ rest)

theorem Unseparated.not_split (h : Unseparated sep rest m (cs ++ (sep ++ ds)) m') (hsep : sep ≠ [])
    {m₁ : Mode} (hafter : m.after cs = some m₁) : ¬m₁.IsTop := by
  induction cs generalizing m with
  | nil =>
    cases hafter
    obtain ⟨d, sep, rfl⟩ := List.exists_cons_of_ne_nil hsep
    cases h with
    | cons hcut _ _ =>
      refine fun hm => hcut hm ?_
      show d :: sep <+: d :: ((sep ++ ds) ++ rest)
      rw [List.append_assoc]
      exact List.prefix_append (d :: sep) _
  | cons c cs ih =>
    obtain ⟨m₂, hnext, hafter⟩ := Option.bind_eq_some_iff.1 hafter
    cases h with
    | cons _ hnext' h =>
      rw [hnext] at hnext'
      cases hnext'
      exact ih h hafter

/-- Where no separator stands at the top, the scan does what the mode does. -/
theorem step_of_not_prefix (hs : s.In m []) (hcut : m.IsTop → ¬sep <+: c :: rest) :
    match m.next c with
    | some m' => Joins sep s c rest [] m'
    | none => ∃ e, step sep s c rest = .error e := by
  have hstep := step_next hs fun hm _ =>
    Bool.eq_false_iff.2 fun h => hcut hm (List.isPrefixOf_iff_prefix.1 h)
  cases hnext : m.next c with
  | some m' =>
    rw [hnext] at hstep
    exact hstep
  | none =>
    rw [hnext] at hstep
    exact hstep rfl

/-- Up to the next separator all characters join the piece. -/
theorem piecesFrom_unseparated (hs : s.In m []) (h : Unseparated sep rest m cs m') :
    ∃ t : Scan, piecesFrom sep s (cs ++ rest) = piecesFrom sep t rest ∧ t.In m' [] ∧
      t.piece = cs.reverse ++ s.piece ∧ t.start = s.start ∧
      t.position = s.position + byteLength cs := by
  induction h generalizing s with
  | nil => exact ⟨s, rfl, hs, rfl, rfl, rfl⟩
  | @cons m m₁ _ c cs hcut hnext _ ih =>
    have hstep := step_of_not_prefix hs hcut
    rw [hnext] at hstep
    obtain ⟨t, ht, hin, hpiece, hstart⟩ := hstep
    obtain ⟨u, hu, hin', hpiece', hstart', hposition⟩ := ih hin
    refine ⟨u, ?_, hin', ?_, hstart'.trans hstart, ?_⟩
    · rw [List.cons_append, piecesFrom, ht]
      exact hu
    · rw [hpiece', List.reverse_cons, List.append_assoc, ← hpiece]
      rfl
    · rw [hposition, step_position ht, byteLength, Nat.add_assoc]

/-- A text without a separator at the top is one piece. -/
theorem piecesFrom_last (hs : s.In m []) (h : Unseparated sep [] m cs m') :
    piecesFrom sep s cs = .ok [⟨s.start, s.piece.reverse ++ cs⟩] := by
  obtain ⟨t, ht, hin, hpiece, hstart, -⟩ := piecesFrom_unseparated hs h
  rw [List.append_nil] at ht
  rw [ht, piecesFrom, endError_eq_none.2 (hin.isTop_iff.1 h.after.2), hpiece, hstart,
    List.reverse_append, List.reverse_reverse]

/-- Behind the first separator the scan begins anew. -/
theorem piecesFrom_more (hsep : IsSeparator sep) (hs : s.In m [])
    (h : Unseparated sep (sep ++ rest) m cs m') :
    ∃ t : Scan, t.Begins ∧ t.position = s.position + byteLength (cs ++ sep) ∧
      piecesFrom sep s (cs ++ (sep ++ rest)) =
        (piecesFrom sep t rest).map (⟨s.start, s.piece.reverse ++ cs⟩ :: ·) := by
  obtain ⟨t, ht, hin, hpiece, hstart, hposition⟩ := piecesFrom_unseparated hs h
  obtain ⟨u, hu, hposition', hpieces⟩ := piecesFrom_separator hsep hin h.after.2 rest
  refine ⟨u, hu, ?_, ?_⟩
  · rw [hposition', hposition, byteLength_append, Nat.add_assoc]
  · rw [ht, hpieces, hpiece, hstart, List.reverse_append, List.reverse_reverse]

/-- Where a text can be cut, it goes on to the first separator or to the end. -/
theorem exists_unseparated (hs : s.In m []) (hps : piecesFrom sep s cs = .ok ps) :
    ∃ m', m'.IsTop ∧ (Unseparated sep [] m cs m' ∨
      ∃ ds rest, cs = ds ++ (sep ++ rest) ∧ Unseparated sep (sep ++ rest) m ds m') := by
  induction cs generalizing s m with
  | nil =>
    rw [piecesFrom] at hps
    split at hps
    · cases hps
    · next hend =>
      have hm := hs.isTop_iff.2 (endError_eq_none.1 hend)
      exact ⟨m, hm, .inl (.nil hm)⟩
  | cons c cs ih =>
    by_cases hcut : m.IsTop ∧ sep <+: c :: cs
    · obtain ⟨hm, rest, hrest⟩ := hcut
      exact ⟨m, hm, .inr ⟨[], rest, hrest.symm, .nil hm⟩⟩
    · have hnot : m.IsTop → ¬sep <+: c :: cs := fun hm h => hcut ⟨hm, h⟩
      have hstep := step_of_not_prefix hs hnot
      rw [piecesFrom] at hps
      cases hnext : m.next c with
      | none =>
        rw [hnext] at hstep
        obtain ⟨e, he⟩ := hstep
        rw [he] at hps
        cases hps
      | some m₁ =>
        rw [hnext] at hstep
        obtain ⟨t, ht, hin, -⟩ := hstep
        rw [ht] at hps
        obtain ⟨m', hm', hwhole | ⟨ds, rest, rfl, hpart⟩⟩ := ih hin hps
        · exact ⟨m', hm', .inl (.cons (by rwa [List.append_nil]) hnext hwhole)⟩
        · exact ⟨m', hm', .inr ⟨c :: ds, rest, rfl, .cons hnot hnext hpart⟩⟩

/-! ## Texts in pieces -/

/-- A text at a byte position as its pieces, with the separator between them. -/
inductive Cuts (sep : List Char) : Nat → List Char → List Piece → Prop
  | last {base : Nat} {cs : List Char} {m : Mode} : Unseparated sep [] ⟨true, none, []⟩ cs m →
      Cuts sep base cs [⟨base, cs⟩]
  | more {base : Nat} {cs rest : List Char} {ps : List Piece} {m : Mode} :
      Unseparated sep (sep ++ rest) ⟨true, none, []⟩ cs m →
      Cuts sep (base + byteLength (cs ++ sep)) rest ps →
      Cuts sep base (cs ++ (sep ++ rest)) (⟨base, cs⟩ :: ps)

theorem cuts_of_piecesFrom (hsep : IsSeparator sep) (hs : s.Begins)
    (hps : piecesFrom sep s cs = .ok ps) : Cuts sep s.position cs ps := by
  induction ps generalizing s cs with
  | nil => exact absurd rfl (piecesFrom_ne_nil hps)
  | cons p ps ih =>
    obtain ⟨m, -, hlast | ⟨ds, rest, rfl, hmore⟩⟩ := exists_unseparated hs.mode hps
    · rw [piecesFrom_last hs.mode hlast, hs.piece, hs.start] at hps
      cases hps
      exact .last hlast
    · obtain ⟨t, ht, hposition, hpieces⟩ := piecesFrom_more hsep hs.mode hmore
      rw [hpieces, hs.piece, hs.start] at hps
      obtain ⟨qs, hqs, hp⟩ := map_ok_iff.1 hps
      cases hp
      exact .more hmore (hposition ▸ ih ht hqs)

theorem piecesFrom_of_cuts (hsep : IsSeparator sep) {base : Nat} (h : Cuts sep base cs ps)
    (hs : s.Begins) (hposition : s.position = base) : piecesFrom sep s cs = .ok ps := by
  induction h generalizing s with
  | last hlast =>
    rw [piecesFrom_last hs.mode hlast, hs.piece, hs.start, hposition]
    rfl
  | more hmore _ ih =>
    obtain ⟨t, ht, hposition', hpieces⟩ := piecesFrom_more hsep hs.mode hmore
    rw [hpieces, ih ht (by rw [hposition', hposition]), hs.piece, hs.start, hposition]
    rfl

theorem pieces_ok_iff (hsep : IsSeparator sep) {base : Nat} :
    pieces sep base cs = .ok ps ↔ Cuts sep base cs ps :=
  have hbegins : Scan.Begins { position := base, start := base } := ⟨in_start base, rfl, rfl⟩
  ⟨cuts_of_piecesFrom hsep hbegins, fun h => piecesFrom_of_cuts hsep h hbegins rfl⟩

/-- A text is cut in the same way wherever it stands. -/
theorem Cuts.moved {base : Nat} (h : Cuts sep base cs ps) (base' : Nat) :
    ∃ qs, Cuts sep base' cs qs ∧ qs.map Piece.text = ps.map Piece.text := by
  induction h generalizing base' with
  | last hlast => exact ⟨_, .last hlast, rfl⟩
  | @more _ ds _ _ _ hmore _ ih =>
    obtain ⟨qs, hqs, htexts⟩ := ih (base' + byteLength (ds ++ sep))
    exact ⟨_, .more hmore hqs, by rw [List.map_cons, List.map_cons, htexts]⟩

theorem pieces_moved (h : pieces [','] position cs = .ok ps) (position' : Nat) :
    ∃ qs, pieces [','] position' cs = .ok qs ∧ qs.map Piece.text = ps.map Piece.text := by
  have hsep := isSeparator (.inr rfl)
  obtain ⟨qs, hqs, htexts⟩ := ((pieces_ok_iff hsep).1 h).moved position'
  exact ⟨qs, (pieces_ok_iff hsep).2 hqs, htexts⟩

theorem Cuts.outside (hsep : IsSeparator sep) {base : Nat} (h : Cuts sep base cs ps) :
    Outside cs := by
  induction h with
  | last hlast => exact hlast.closed
  | more hmore _ ih =>
    obtain ⟨o, hclosed⟩ := hmore.closed
    obtain ⟨o', hrest⟩ := ih
    exact ⟨o', hclosed.append ((hsep.closed o).append hrest)⟩

/-- What can be cut at commas is balanced. -/
theorem balanced_of_pieces (h : pieces [','] position cs = .ok ps) : Balanced cs := by
  have hsep := isSeparator (.inr rfl)
  exact outside_iff.1 (((pieces_ok_iff hsep).1 h).outside hsep)

/-- What stands before the pieces that follow these. -/
def textBefore (sep : List Char) (ps : List Piece) : List Char := ps.flatMap fun p => p.text ++ sep

/-- Where a piece stands, and that nothing is open there. -/
theorem Cuts.stands (hsep : IsSeparator sep) {base : Nat} {before after : List Piece}
    (h : Cuts sep base cs (before ++ p :: after)) :
    (∃ right, cs = textBefore sep before ++ (p.text ++ right)) ∧
      p.offset = base + byteLength (textBefore sep before) ∧
      Closed true (textBefore sep before) true ∧
      ∃ m, Unseparated sep [] ⟨true, none, []⟩ p.text m := by
  induction before generalizing base cs with
  | nil =>
    cases h with
    | last hwhole => exact ⟨⟨[], (List.append_nil _).symm⟩, rfl, .nil, _, hwhole⟩
    | more hwhole _ => exact ⟨⟨_, rfl⟩, rfl, .nil, _, hwhole.alone⟩
  | cons q before ih =>
    rw [List.cons_append] at h
    generalize htail : before ++ p :: after = tail at h
    cases h with
    | last => simp at htail
    | @more _ ds rest _ _ hwhole hcuts =>
      subst htail
      obtain ⟨⟨right, hright⟩, hoffset, hclosed, hpiece⟩ := ih hcuts
      have hbefore : textBefore sep (⟨base, ds⟩ :: before) =
          (ds ++ sep) ++ textBefore sep before := rfl
      obtain ⟨o, hds⟩ := hwhole.closed
      rw [hbefore]
      refine ⟨⟨right, ?_⟩, ?_, (hds.append (hsep.closed o)).append hclosed, hpiece⟩
      · rw [hright]
        simp only [List.append_assoc]
      · rw [hoffset, byteLength_append (ds ++ sep), Nat.add_assoc]

/-- **Texts are cut at the separators outside quotes, brackets and parentheses**: the pieces with
the separator between them are the text, each at its byte position; every piece ends outside, no
separator in it is outside, and cut on its own it is one piece. -/
theorem pieces_cut_outside (hsep : sep = ['=', '>'] ∨ sep = [',']) (base : Nat) (cs : List Char)
    (ps : List Piece) (h : pieces sep base cs = .ok ps) :
    List.intercalate sep (ps.map Piece.text) = cs ∧
    (∀ before p after, ps = before ++ p :: after →
      (∃ right, cs = textBefore sep before ++ (p.text ++ right)) ∧
      p.offset = base + byteLength (textBefore sep before) ∧
      Outside (textBefore sep before ++ p.text)) ∧
    ∀ p ∈ ps, (∀ left right, p.text = left ++ (sep ++ right) → ¬Outside left) ∧
      ∀ base', pieces sep base' p.text = .ok [⟨base', p.text⟩] := by
  have hseparator := isSeparator hsep
  have hcuts := (pieces_ok_iff hseparator).1 h
  refine ⟨intercalate_piecesFrom hseparator.ne_nil h, ?_, ?_⟩
  · rintro before p after rfl
    obtain ⟨hright, hoffset, hclosed, m, hwhole⟩ := hcuts.stands hseparator
    obtain ⟨o, hpiece⟩ := hwhole.closed
    exact ⟨hright, hoffset, o, hclosed.append hpiece⟩
  · intro p hp
    obtain ⟨before, after, rfl⟩ := List.append_of_mem hp
    obtain ⟨-, -, -, m, hwhole⟩ := hcuts.stands hseparator
    constructor
    · rintro left right hsplit ⟨o, hleft⟩
      rw [hsplit] at hwhole
      exact hwhole.not_split hseparator.ne_nil (closed_iff.1 hleft) ⟨rfl, rfl⟩
    · exact fun base' => piecesFrom_last (in_start base') hwhole

/-- A comma in a quotation, in brackets or in a quotation within them does not cut, and neither does
one after an apostrophe that stands inside a word. -/
theorem pieces_cut_outside_commas :
    let text := "O'Brien, 'b, c' ,f(\",)\",[1,2])".toList
    ∃ ps, pieces [','] 4 text = .ok ps ∧ ps.map Piece.offset = [4, 12, 21] ∧
      List.intercalate [','] (ps.map Piece.text) = text ∧
      ∀ p ∈ ps, pieces [','] 0 p.text = .ok [⟨0, p.text⟩] := by
  intro text
  have hrun : (pieces [','] 4 text).toOption.map (·.map Piece.offset) = some [4, 12, 21] := by
    decide +kernel
  obtain ⟨ps, hps, hoffsets⟩ := Option.map_eq_some_iff.1 hrun
  have hok := eq_ok_of_toOption hps
  obtain ⟨htext, -, hpieces⟩ := pieces_cut_outside (.inr rfl) 4 text ps hok
  exact ⟨ps, hok, hoffsets, htext, fun p hp => (hpieces p hp).2 0⟩

end Rulebook.TopLevel
