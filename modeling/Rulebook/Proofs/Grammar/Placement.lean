import Rulebook.Proofs.Grammar.Compile
import Rulebook.Proofs.Grammar.Locality

/-!
# Where rules are read

`ChainAt src depth ts r` derives the rule `r`, with its sources and spans, from the tokens `ts`.  It
is the grammar over the tokens themselves:

    a bracket       spans all of its tokens
    parentheses     are left out of the rule between them
    a longer chain  spans its tokens from the first of its first unit to the last of its last

Reading a chain finds these rules only (`readChain_places`) and all of them (`ChainAt.read`), and a
derivation can be moved to a text where its tokens stand elsewhere (`ChainAt.moved`).
-/

namespace Rulebook

namespace Rule

mutual

/-- The rule with `f` applied to all of its spans. -/
def mapSpans (f : Span → Span) : Rule → Rule
  | .bracket b => .bracket { b with span := f b.span }
  | .node source span groups => .node source (f span) (mapGroups f groups)

def mapGroups (f : Span → Span) : List (GroupOf Rule) → List (GroupOf Rule)
  | [] => []
  | g :: gs => mapGroup f g :: mapGroups f gs

def mapGroup (f : Span → Span) : GroupOf Rule → GroupOf Rule
  | ⟨join, members⟩ => ⟨join, mapMembers f members⟩

def mapMembers (f : Span → Span) : List Rule → List Rule
  | [] => []
  | r :: rs => mapSpans f r :: mapMembers f rs

end

theorem mapMembers_eq_map (f : Span → Span) (rs : List Rule) :
    mapMembers f rs = rs.map (mapSpans f) := by
  induction rs with
  | nil => rfl
  | cons r rs ih => rw [mapMembers, ih, List.map_cons]

theorem span_mapSpans (f : Span → Span) (r : Rule) : (r.mapSpans f).span = f r.span := by
  cases r <;> rfl

/-- The rule in a text that begins at byte `n`. -/
def back (n : Nat) : Rule → Rule := mapSpans (Span.back n)

end Rule

namespace Grammar

open Rule

/-- From where the first token begins to where the last ends. -/
def extent (ts : List Token) : Span :=
  ⟨(ts.head?.map (·.span.start)).getD 0, (ts.getLast?.map (·.span.stop)).getD 0⟩

mutual

/-- A bracket, or a chain in parentheses. -/
inductive UnitAt (src : RuleSource) : Nat → List Token → Rule → Prop
  | bracket {depth ts b} : BracketForm (ts.map Token.kind) (Rule.bracket b).shape →
      b.span = extent ts → b.source = src.slice (extent ts) → UnitAt src depth ts (.bracket b)
  | parens {depth o ts c r} : o.kind = .openParen → ChainAt src depth ts r →
      c.kind = .closeParen → UnitAt src (depth + 1) (o :: (ts ++ [c])) r

/-- Units with signs between them. -/
inductive ChainAt (src : RuleSource) : Nat → List Token → Rule → Prop
  | one {depth ts r} : UnitAt src depth ts r → ChainAt src depth ts r
  | more {depth ts r us join r' links} : UnitAt src depth ts r →
      LinksAt src depth us ((join, r') :: links) → ChainAt src depth (ts ++ us)
        (.node (src.slice (extent (ts ++ us))) (extent (ts ++ us))
          [⟨join, r :: r' :: links.map Prod.snd⟩])

/-- Units, each with the sign before it. -/
inductive LinksAt (src : RuleSource) : Nat → List Token → List (Join × Rule) → Prop
  | nil {depth} : LinksAt src depth [] []
  | cons {depth t join ts r us links} : SignForm t.kind join → UnitAt src depth ts r →
      LinksAt src depth us links → LinksAt src depth (t :: (ts ++ us)) ((join, r) :: links)

end

variable {src src' : RuleSource} {ts us rest : List Token} {r : Rule} {b b' : Bracket}
  {n k depth limit : Nat}

theorem UnitAt.ne_nil (h : UnitAt src depth ts r) : ts ≠ [] := by
  cases h with
  | bracket hb =>
    rintro rfl
    cases hb
  | parens => simp

theorem ChainAt.ne_nil (h : ChainAt src depth ts r) : ts ≠ [] := by
  cases h with
  | one hu => exact hu.ne_nil
  | more hu => exact List.append_ne_nil_of_left_ne_nil hu.ne_nil _

/-! ## Extents -/

theorem extent_take (hn : 0 < n) (hle : n ≤ ts.length) :
    extent (ts.take n) = ⟨(ts.head?.map (·.span.start)).getD 0, stopOf ts n⟩ := by
  have hlast : (ts.take n).getLast? = ts[n - 1]? := by
    rw [List.getLast?_take, if_neg (by omega), List.getElem?_eq_getElem (by omega)]
    rfl
  rw [extent, List.head?_take, if_neg (by omega), hlast, stopOf]
  cases ts[n - 1]? <;> rfl

theorem stopOf_cons (hn : 0 < n) (t : Token) : stopOf (t :: ts) (n + 1) = stopOf ts n := by
  obtain ⟨m, rfl⟩ := Nat.exists_eq_add_one_of_ne_zero (Nat.pos_iff_ne_zero.1 hn)
  rfl

theorem extent_cons (t : Token) : (extent (t :: ts)).start = t.span.start := rfl

theorem extent_concat (t : Token) : (extent (ts ++ [t])).stop = t.span.stop := by
  simp [extent]

/-- An extent begins with a token and ends with one. -/
theorem exists_extent (hne : ts ≠ []) :
    ∃ t ∈ ts, ∃ u ∈ ts, extent ts = ⟨t.span.start, u.span.stop⟩ := by
  refine ⟨ts.head hne, List.head_mem hne, ts.getLast hne, List.getLast_mem hne, ?_⟩
  rw [extent, List.head?_eq_some_head hne, List.getLast?_eq_some_getLast hne]
  rfl

theorem in_extent {t : Token} {cs : List Char} (hplaced : Token.Placed cs ts) (ht : t ∈ ts) :
    (extent ts).start ≤ t.span.start ∧ t.span.stop ≤ (extent ts).stop := by
  constructor
  · obtain ⟨u, us, rfl⟩ := List.exists_cons_of_ne_nil (List.ne_nil_of_mem ht)
    show u.span.start ≤ t.span.start
    rcases List.mem_cons.1 ht with rfl | ht
    · exact Nat.le_refl _
    · exact Nat.le_trans (hplaced.start_le List.mem_cons_self)
        (List.rel_of_pairwise_cons hplaced.ordered ht)
  · obtain ⟨us, u, rfl⟩ := (List.eq_nil_or_concat' ts).resolve_left (List.ne_nil_of_mem ht)
    rw [extent_concat]
    rcases List.mem_append.1 ht with ht | ht
    · exact Nat.le_trans ((List.pairwise_append.1 hplaced.ordered).2.2 t ht u (by simp))
        (hplaced.start_le (by simp))
    · exact Nat.le_of_eq (by rw [List.mem_singleton.1 ht])

/-! ## Reading finds these rules only -/

theorem readBracket_places {opening : Token} (h : readBracket src opening ts = .ok (r, n)) :
    ∃ b, r = .bracket b ∧ 0 < n ∧ b.span = ⟨opening.span.start, stopOf ts n⟩ ∧
      b.source = src.slice b.span := by
  unfold readBracket at h
  obtain ⟨⟨op, n₁⟩, -, h⟩ := bind_ok_iff.1 h
  obtain ⟨operand, -, h⟩ := bind_ok_iff.1 h
  obtain ⟨⟨ms, active, n₃⟩, -, h⟩ := bind_ok_iff.1 h
  obtain ⟨⟨force, n₄⟩, -, h⟩ := bind_ok_iff.1 h
  dsimp only at h
  split at h
  · next t us hdrop =>
    split at h
    · cases h
      have hstop := congrArg List.head? hdrop
      rw [List.head?_drop, List.head?_cons] at hstop
      refine ⟨_, rfl, Nat.succ_pos _, ?_, rfl⟩
      simp only [stopOf, Nat.add_sub_cancel, hstop]
    · cases h
  · cases h

/-- A bracket stands where its tokens do. -/
theorem readBracket_at {t : Token} (hk : t.kind = .openBracket)
    (hr : readBracket src t rest = .ok (r, n)) :
    n + 1 ≤ (t :: rest).length ∧ UnitAt src depth ((t :: rest).take (n + 1)) r := by
  obtain ⟨hle, hform⟩ := readBracket_sound hk hr
  obtain ⟨b, rfl, hpos, hspan, hsource⟩ := readBracket_places hr
  have hextent : b.span = extent ((t :: rest).take (n + 1)) := by
    rw [hspan, extent_take (Nat.succ_pos n) hle, stopOf_cons hpos]
    rfl
  exact ⟨hle, .bracket hform hextent (hextent ▸ hsource)⟩

theorem bracket_ext (hshape : (Rule.bracket b).shape = (Rule.bracket b').shape)
    (hspan : b.span = b'.span) (hsource : b.source = b'.source) : b = b' := by
  obtain ⟨source, span, operand, target, modifiers, active, force⟩ := b
  rw [Rule.shape, Rule.shape, Shape.bracket.injEq] at hshape
  obtain ⟨rfl, rfl, rfl, rfl, rfl⟩ := hshape
  obtain rfl := hspan
  obtain rfl := hsource
  rfl

section
variable {unit : List Token → Except ParseError (Rule × Nat)}

theorem readLinks_places
    (hunit : ∀ ts r n, unit ts = .ok (r, n) → n ≤ ts.length ∧ UnitAt src depth (ts.take n) r)
    {links : List (Join × Rule)} (h : readLinks unit ts = .ok (links, n)) :
    n ≤ ts.length ∧ LinksAt src depth (ts.take n) links := by
  fun_induction readLinks unit ts generalizing links n with
  | case1 => cases h; exact ⟨Nat.le_refl _, .nil⟩
  | case2 => cases h; exact ⟨Nat.zero_le _, .nil⟩
  | case3 => cases h
  | case4 => cases h
  | case5 t rest join hj r m hr links' m' hlinks ih =>
    cases h
    obtain ⟨hm, hat⟩ := hunit _ _ _ hr
    obtain ⟨hm', hrest⟩ := ih hlinks
    rw [List.length_drop] at hm'
    refine ⟨by rw [List.length_cons]; omega, ?_⟩
    rw [List.take_succ_cons, List.take_add]
    exact .cons (joinOf_eq_some_iff.1 hj) hat hrest

theorem readChain_places
    (hunit : ∀ ts r n, unit ts = .ok (r, n) → n ≤ ts.length ∧ UnitAt src depth (ts.take n) r)
    (h : readChain src unit ts = .ok (r, n)) :
    n ≤ ts.length ∧ ChainAt src depth (ts.take n) r := by
  unfold readChain at h
  obtain ⟨⟨first, m⟩, hfirst, h⟩ := bind_ok_iff.1 h
  obtain ⟨⟨links, m'⟩, hlinks, h⟩ := bind_ok_iff.1 h
  cases h
  obtain ⟨hm, hat⟩ := hunit _ _ _ hfirst
  obtain ⟨hm', hrest⟩ := readLinks_places hunit hlinks
  rw [List.length_drop] at hm'
  have hle : m + m' ≤ ts.length := by omega
  have hpos : 0 < m := Nat.pos_of_ne_zero fun hzero => hat.ne_nil (by rw [hzero, List.take_zero])
  refine ⟨hle, ?_⟩
  cases links with
  | nil =>
    cases hlinks' : ts.drop m |>.take m' with
    | nil =>
      rw [List.take_add, hlinks', List.append_nil]
      exact .one hat
    | cons =>
      rw [hlinks'] at hrest
      cases hrest
  | cons link links =>
    obtain ⟨join, r⟩ := link
    have hspan := extent_take (Nat.lt_of_lt_of_le hpos (Nat.le_add_right m m')) hle
    have hchain := ChainAt.more hat hrest
    rw [← List.take_add, hspan] at hchain
    exact hchain

end

theorem readUnit_places (h : readUnit src limit depth ts = .ok (r, n)) :
    n ≤ ts.length ∧ UnitAt src depth (ts.take n) r := by
  induction depth generalizing ts r n with
  | zero =>
    rcases readUnit_ok_cases h with ⟨t, rest, m, rfl, hk, hr, rfl⟩ | ⟨_, _, _, _, _, _, _, _, hd, _⟩
    · exact readBracket_at hk hr
    · cases hd
  | succ depth ih =>
    rcases readUnit_ok_cases h with ⟨t, rest, m, rfl, hk, hr, rfl⟩ |
      ⟨t, rest, depth', m, u, us, rfl, hk, hd, hr, hdrop, hu, rfl⟩
    · exact readBracket_at hk hr
    · cases hd
      obtain ⟨hm, hchain⟩ := readChain_places (fun _ _ _ => ih) hr
      have hlength := congrArg List.length hdrop
      rw [List.length_drop, List.length_cons] at hlength
      have htake : rest.take (m + 1) = rest.take m ++ [u] := by
        rw [List.take_add, hdrop]
        rfl
      refine ⟨by rw [List.length_cons]; omega, ?_⟩
      rw [List.take_succ_cons, htake]
      exact .parens hk hchain hu

/-! ## Reading finds all of them -/

theorem UnitAt.read_bracket (hform : BracketForm (ts.map Token.kind) (Rule.bracket b).shape)
    (hspan : b.span = extent ts) (hsource : b.source = src.slice (extent ts)) (limit depth : Nat)
    (rest : List Token) :
    readUnit src limit depth (ts ++ rest) = .ok (.bracket b, ts.length) := by
  cases ts with
  | nil => cases hform
  | cons t ts =>
    have hk : t.kind = .openBracket := by
      generalize hks : (t :: ts).map Token.kind = ks at hform
      cases hform
      exact (List.cons.inj hks).1
    rw [List.map_cons, hk] at hform
    have hkinds : (ts ++ rest).map Token.kind = ts.map Token.kind ++ rest.map Token.kind :=
      List.map_append
    obtain ⟨r, hr, hshape⟩ := readBracket_complete src t hform hkinds
    rw [List.length_map] at hr
    obtain ⟨b', rfl, hpos, hspan', hsource'⟩ := readBracket_places hr
    have hextent : extent (t :: ts) = ⟨t.span.start, stopOf (ts ++ rest) ts.length⟩ := by
      have htake : extent ((t :: (ts ++ rest)).take (ts.length + 1)) =
          ⟨t.span.start, stopOf (t :: (ts ++ rest)) (ts.length + 1)⟩ :=
        extent_take (Nat.succ_pos ts.length) (by simp)
      rw [List.take_succ_cons, List.take_left, stopOf_cons hpos] at htake
      exact htake
    obtain rfl : b = b' := by
      refine bracket_ext hshape.symm ?_ ?_
      · rw [hspan, hextent, hspan']
      · rw [hsource, hsource', hspan', hextent]
    rw [List.cons_append, List.length_cons]
    cases depth <;> simp [readUnit, hk, hr, Except.map]

theorem readLinks_of_ends {unit : List Token → Except ParseError (Rule × Nat)}
    (h : EndsChain (rest.map Token.kind)) : readLinks unit rest = .ok ([], 0) := by
  cases rest with
  | nil => simp [readLinks]
  | cons t rest =>
    have hk : joinOf t.kind = none := h _ rfl
    rw [readLinks]
    simp only [hk]

mutual

theorem UnitAt.read {src : RuleSource} {depth : Nat} {ts : List Token} {r : Rule} :
    UnitAt src depth ts r → ∀ (limit d : Nat) (rest : List Token), depth ≤ d →
      readUnit src limit d (ts ++ rest) = .ok (r, ts.length)
  | .bracket hform hspan hsource, limit, d, rest, _ =>
    UnitAt.read_bracket hform hspan hsource limit d rest
  | @UnitAt.parens _ depth o ts c r ho hchain hc, limit, d, rest, hd => by
    obtain ⟨d, rfl⟩ := Nat.exists_eq_add_one_of_ne_zero (Nat.ne_zero_of_lt hd)
    have hends : EndsChain ((c :: rest).map Token.kind) := by
      rintro k hk
      rw [List.map_cons, List.head?_cons, Option.some.injEq, hc] at hk
      rw [← hk]
      rfl
    have hinner := ChainAt.read hchain limit d (c :: rest) (Nat.le_of_succ_le_succ hd) hends
    have htext : o :: (ts ++ [c]) ++ rest = o :: (ts ++ c :: rest) := by simp
    rw [htext]
    simp only [readUnit, ho, hinner, List.drop_left, hc, bind, Except.bind, if_true,
      List.length_cons, List.length_append, List.length_nil]

theorem ChainAt.read {src : RuleSource} {depth : Nat} {ts : List Token} {r : Rule} :
    ChainAt src depth ts r → ∀ (limit d : Nat) (rest : List Token), depth ≤ d →
      EndsChain (rest.map Token.kind) →
        readChain src (readUnit src limit d) (ts ++ rest) = .ok (r, ts.length)
  | .one hu, limit, d, rest, hd, hrest => by
    have hfirst := UnitAt.read hu limit d rest hd
    have hlinks : readLinks (readUnit src limit d) rest = .ok ([], 0) := readLinks_of_ends hrest
    simp only [readChain, hfirst, List.drop_left, hlinks, bind, Except.bind, pure, Except.pure,
      ofChain]
    rfl
  | @ChainAt.more _ _ ts r us join r' links hu hl, limit, d, rest, hd, hrest => by
    have hfirst := UnitAt.read hu limit d (us ++ rest) hd
    have hlinks := LinksAt.read hl limit d rest hd hrest
    have hpos : 0 < (ts ++ us).length :=
      List.length_pos_of_ne_nil (List.append_ne_nil_of_left_ne_nil hu.ne_nil us)
    have hle : (ts ++ us).length ≤ (ts ++ us ++ rest).length := by simp
    have hextent := extent_take hpos hle
    rw [List.take_left] at hextent
    rw [hextent]
    rw [List.append_assoc] at hextent ⊢
    simp only [readChain, hfirst, List.drop_left, hlinks, bind, Except.bind, pure, Except.pure,
      ofChain, List.length_append]

theorem LinksAt.read {src : RuleSource} {depth : Nat} {us : List Token}
    {links : List (Join × Rule)} : LinksAt src depth us links →
    ∀ (limit d : Nat) (rest : List Token), depth ≤ d → EndsChain (rest.map Token.kind) →
      readLinks (readUnit src limit d) (us ++ rest) = .ok (links, us.length)
  | .nil, _, _, _, _, hrest => readLinks_of_ends hrest
  | @LinksAt.cons _ _ t join ts r us links hk hu hl, limit, d, rest, hd, hrest => by
    have hfirst := UnitAt.read hu limit d (us ++ rest) hd
    have hlinks := LinksAt.read hl limit d rest hd hrest
    rw [List.cons_append, List.append_assoc, readLinks]
    simp only [joinOf_eq_some_iff.2 hk, hfirst, List.drop_left, hlinks, List.length_cons,
      List.length_append]

end

/-! ## Moving -/

/-- The tokens cover the same texts in a source that begins at byte `n` of the other. -/
def Agree (src src' : RuleSource) (n : Nat) (ts : List Token) : Prop :=
  ∀ t ∈ ts, ∀ u ∈ ts, src'.slice ⟨t.span.start - n, u.span.stop - n⟩ =
    src.slice ⟨t.span.start, u.span.stop⟩

theorem Agree.subset (h : Agree src src' n ts) (hus : us ⊆ ts) : Agree src src' n us :=
  fun t ht u hu => h t (hus ht) u (hus hu)

theorem extent_back (hne : ts ≠ []) : extent (ts.map (Token.back n)) = (extent ts).back n := by
  rw [extent, extent, List.head?_map, List.getLast?_map, List.head?_eq_some_head hne,
    List.getLast?_eq_some_getLast hne]
  rfl

theorem Agree.extent (h : Agree src src' n ts) (hne : ts ≠ []) :
    src'.slice (Grammar.extent (ts.map (Token.back n))) = src.slice (Grammar.extent ts) := by
  obtain ⟨t, ht, u, hu, hextent⟩ := exists_extent hne
  rw [extent_back hne, hextent]
  exact h t ht u hu

theorem map_kind_back (ts : List Token) :
    (ts.map (Token.back n)).map Token.kind = ts.map Token.kind := by
  rw [List.map_map]
  rfl

/-- The links in a text that begins at byte `n`. -/
def linksBack (n : Nat) (links : List (Join × Rule)) : List (Join × Rule) :=
  links.map fun (join, r) => (join, r.back n)

mutual

theorem UnitAt.moved {src src' : RuleSource} {n depth : Nat} {ts : List Token} {r : Rule} :
    UnitAt src depth ts r → Agree src src' n ts →
      UnitAt src' depth (ts.map (Token.back n)) (r.back n)
  | @UnitAt.bracket _ _ ts b hform hspan hsource, h => by
    have hne : ts ≠ [] :=
      UnitAt.ne_nil (.bracket hform hspan hsource : UnitAt src depth ts (.bracket b))
    refine .bracket ?_ ?_ ?_
    · rwa [map_kind_back]
    · rw [extent_back hne, ← hspan]
    · rw [h.extent hne, ← hsource]
  | @UnitAt.parens _ depth o ts c r ho hchain hc, h => by
    have hinner : Agree src src' n ts := h.subset (by simp)
    rw [List.map_cons, List.map_append, List.map_singleton]
    exact .parens ho (ChainAt.moved hchain hinner) hc

theorem ChainAt.moved {src src' : RuleSource} {n depth : Nat} {ts : List Token} {r : Rule} :
    ChainAt src depth ts r → Agree src src' n ts →
      ChainAt src' depth (ts.map (Token.back n)) (r.back n)
  | .one hu, h => .one (UnitAt.moved hu h)
  | @ChainAt.more _ _ ts r us join r' links hu hl, h => by
    have hfirst := UnitAt.moved hu (h.subset (List.subset_append_left ts us))
    have hrest := LinksAt.moved hl (h.subset (List.subset_append_right ts us))
    have hne : ts ++ us ≠ [] := List.append_ne_nil_of_left_ne_nil hu.ne_nil us
    have hchain := ChainAt.more hfirst hrest
    rw [← List.map_append, h.extent hne, extent_back hne, List.map_map] at hchain
    simp only [Rule.back, mapSpans, mapGroups, mapGroup, mapMembers, mapMembers_eq_map,
      List.map_map]
    exact hchain

theorem LinksAt.moved {src src' : RuleSource} {n depth : Nat} {us : List Token}
    {links : List (Join × Rule)} : LinksAt src depth us links → Agree src src' n us →
      LinksAt src' depth (us.map (Token.back n)) (linksBack n links)
  | .nil, _ => .nil
  | @LinksAt.cons _ _ t join ts r us links hk hu hl, h => by
    have hfirst := UnitAt.moved hu (h.subset (by simp))
    have hrest := LinksAt.moved hl (h.subset (by simp))
    rw [List.map_cons, List.map_append]
    exact .cons hk hfirst hrest

end

end Grammar

end Rulebook
