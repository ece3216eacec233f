import Rulebook.Proofs.Grammar.Placement

/-!
# The source kept in a rule

Every part of a compiled rule was read from tokens of its own, which stand one behind the other in
the tokens of the text (`HasCore`).  They are the tokens of the source that the part keeps, so the
source compiles to the part again, with its spans moved to the front:

    compile config text = .ok r,  m a part of r
      →  compile config m.source = .ok (m.back m.span.start)
-/

namespace Rulebook

open Text Token

namespace Rule

/-- The rules that a node combines, in order. -/
def members : Rule → List Rule
  | .bracket _ => []
  | .node _ _ groups => groups.flatMap GroupOf.members

/-- The first rule is the second, or a part of one of its members. -/
inductive Part : Rule → Rule → Prop
  | self {r} : Part r r
  | member {p m r} : m ∈ r.members → Part p m → Part p r

end Rule

namespace Grammar

open Rule

variable {src : RuleSource} {ts us tokens : List Token} {r m p q : Rule} {depth d : Nat}
  {links : List (Join × Rule)} {config : Config} {text : String} {cs : List Char}

/-! ## Derivations and compilation -/

theorem exists_chainAt_of_compile (h : compile config text = .ok r) :
    ∃ ts, scan text = .ok ts ∧ ChainAt (sourceOf text ts) config.maxDepth ts r := by
  unfold compile at h
  split at h
  · cases h
  · cases h
  · next ts _ hscan =>
    refine ⟨ts, hscan, ?_⟩
    obtain ⟨⟨r', n⟩, hr, h⟩ := bind_ok_iff.1 h
    dsimp only at h
    split at h
    · next hdrop =>
      cases h
      have hchain := (readChain_places (fun _ _ _ => readUnit_places) hr).2
      rwa [List.take_of_length_le (List.drop_eq_nil_iff.1 hdrop)] at hchain
    · cases h

theorem compile_of_chainAt (hscan : scan text = .ok ts)
    (h : ChainAt (sourceOf text ts) depth ts r) (hdepth : depth ≤ config.maxDepth) :
    compile config text = .ok r := by
  have hchain := h.read config.maxDepth config.maxDepth [] hdepth (by simp [EndsChain])
  rw [List.append_nil] at hchain
  have htokens : ofTokens config.maxDepth text ts = .ok r := by
    simp [ofTokens, hchain, bind, Except.bind]
  unfold compile
  rw [hscan]
  cases ts with
  | nil => exact absurd rfl h.ne_nil
  | cons => exact htokens

/-! ## The tokens of a part -/

/-- Tokens among `ts` that hold the rule, without the parentheses around it. -/
def HasCore (src : RuleSource) (depth : Nat) (ts : List Token) (r : Rule) : Prop :=
  ∃ d mid, d ≤ depth ∧ mid <:+: ts ∧ ChainAt src d mid r ∧ r.span = extent mid ∧
    r.source = src.slice (extent mid)

theorem HasCore.mono (h : HasCore src depth ts r) (hdepth : depth ≤ d) (hts : ts <:+: us) :
    HasCore src d us r := by
  obtain ⟨d', mid, hd, hmid, h⟩ := h
  exact ⟨d', mid, Nat.le_trans hd hdepth, hmid.trans hts, h⟩

mutual

theorem UnitAt.core {src : RuleSource} {depth : Nat} {ts : List Token} {r : Rule} :
    UnitAt src depth ts r → HasCore src depth ts r
  | .bracket hform hspan hsource =>
    ⟨depth, ts, Nat.le_refl _, List.infix_rfl, .one (.bracket hform hspan hsource), hspan, hsource⟩
  | @UnitAt.parens _ _ o _ c _ _ hchain _ =>
    (ChainAt.core hchain).mono (Nat.le_succ _) ⟨[o], [c], rfl⟩

theorem ChainAt.core {src : RuleSource} {depth : Nat} {ts : List Token} {r : Rule} :
    ChainAt src depth ts r → HasCore src depth ts r
  | .one hu => UnitAt.core hu
  | .more hu hl => ⟨depth, _, Nat.le_refl _, List.infix_rfl, .more hu hl, rfl, rfl⟩

end

theorem LinksAt.core : ∀ {us : List Token} {links : List (Join × Rule)},
    LinksAt src depth us links → ∀ m ∈ links.map Prod.snd, HasCore src depth us m
  | _, _, .nil => nofun
  | _, _, @LinksAt.cons _ _ t join ts r us links _ hu hl => by
    rw [List.map_cons, List.forall_mem_cons]
    refine ⟨hu.core.mono (Nat.le_refl _) ⟨[t], us, by simp⟩, fun m hm => ?_⟩
    exact (LinksAt.core hl m hm).mono (Nat.le_refl _) ⟨t :: ts, [], by simp⟩

theorem members_node {span : Span} {source : String} {join : Join} {rs : List Rule} :
    (Rule.node source span [⟨join, rs⟩]).members = rs := by
  simp [members]

mutual

theorem UnitAt.member {src : RuleSource} {depth : Nat} {ts : List Token} {r : Rule} :
    UnitAt src depth ts r → ∀ m ∈ r.members, HasCore src depth ts m
  | .bracket .. => nofun
  | @UnitAt.parens _ _ o _ c _ _ hchain _ => fun m hm =>
    (ChainAt.member hchain m hm).mono (Nat.le_succ _) ⟨[o], [c], rfl⟩

theorem ChainAt.member {src : RuleSource} {depth : Nat} {ts : List Token} {r : Rule} :
    ChainAt src depth ts r → ∀ m ∈ r.members, HasCore src depth ts m
  | .one hu => UnitAt.member hu
  | @ChainAt.more _ _ ts r us join r' links hu hl => by
    rw [members_node, List.forall_mem_cons]
    refine ⟨hu.core.mono (Nat.le_refl _) (List.prefix_append ts us).isInfix, fun m hm => ?_⟩
    exact (hl.core m hm).mono (Nat.le_refl _) (List.suffix_append ts us).isInfix

end

/-- Every part of a rule has tokens of its own among those of the rule. -/
theorem HasCore.part (hp : Part p r) (h : HasCore src depth ts r) : HasCore src depth ts p := by
  induction hp with
  | self => exact h
  | member hm _ ih =>
    obtain ⟨d, mid, hd, hmid, hchain, -⟩ := h
    exact ih ((hchain.member _ hm).mono hd hmid)

/-! ## Members in order -/

/-- A rule begins where a token does and ends where one does. -/
theorem HasCore.bounds (h : HasCore src depth ts r) :
    ∃ t ∈ ts, ∃ u ∈ ts, r.span = ⟨t.span.start, u.span.stop⟩ := by
  obtain ⟨d, mid, -, hmid, hchain, hspan, -⟩ := h
  obtain ⟨t, ht, u, hu, hextent⟩ := exists_extent hchain.ne_nil
  exact ⟨t, hmid.subset ht, u, hmid.subset hu, hspan.trans hextent⟩

theorem HasCore.before (hp : HasCore src depth ts p) (hq : HasCore src depth us q)
    (hplaced : Placed cs (ts ++ us)) : p.span.stop ≤ q.span.start := by
  obtain ⟨_, -, u, hu, hpspan⟩ := hp.bounds
  obtain ⟨t, ht, _, -, hqspan⟩ := hq.bounds
  rw [hpspan, hqspan]
  exact (List.pairwise_append.1 hplaced.ordered).2.2 u hu t ht

theorem LinksAt.ordered : ∀ {us : List Token} {links : List (Join × Rule)},
    LinksAt src depth us links → Placed cs us →
      (links.map Prod.snd).Pairwise fun p q => p.span.stop ≤ q.span.start
  | _, _, .nil, _ => .nil
  | _, _, @LinksAt.cons _ _ t join ts r us links _ hu hl, hplaced => by
    have hrest : Placed cs (ts ++ us) := hplaced.sublist (List.sublist_cons_self t _)
    rw [List.map_cons, List.pairwise_cons]
    exact ⟨fun q hq => hu.core.before (hl.core q hq) hrest,
      LinksAt.ordered hl (hrest.sublist (List.sublist_append_right ts us))⟩

/-- The members stand in the rule, one behind the other. -/
def Ordered (r : Rule) : Prop :=
  (∀ m ∈ r.members, r.span.start ≤ m.span.start ∧ m.span.stop ≤ r.span.stop) ∧
    r.members.Pairwise fun p q => p.span.stop ≤ q.span.start

mutual

theorem UnitAt.ordered {src : RuleSource} {depth : Nat} {ts : List Token} {r : Rule}
    {cs : List Char} : UnitAt src depth ts r → Placed cs ts → Ordered r
  | .bracket .., _ => ⟨nofun, .nil⟩
  | .parens _ hchain _, hplaced =>
    ChainAt.ordered hchain (hplaced.sublist (.cons _ (List.sublist_append_left _ _)))

theorem ChainAt.ordered {src : RuleSource} {depth : Nat} {ts : List Token} {r : Rule}
    {cs : List Char} : ChainAt src depth ts r → Placed cs ts → Ordered r
  | .one hu, hplaced => UnitAt.ordered hu hplaced
  | @ChainAt.more _ _ ts r us join r' links hu hl, hplaced => by
    refine ⟨fun m hm => ?_, ?_⟩
    · obtain ⟨t, ht, u, hu, hspan⟩ := (ChainAt.member (.more hu hl) m hm).bounds
      rw [hspan]
      exact ⟨(in_extent hplaced ht).1, (in_extent hplaced hu).2⟩
    · rw [members_node, List.pairwise_cons]
      exact ⟨fun q hq => hu.core.before (hl.core q hq) hplaced,
        hl.ordered (hplaced.sublist (List.sublist_append_right ts us))⟩

end

/-! ## Tokens of the source -/

/-- The first token opens a bracket or a parenthesis. -/
def StartsOpen (ts : List Token) : Prop :=
  ∃ t us, ts = t :: us ∧ (t.kind = .openBracket ∨ t.kind = .openParen)

theorem UnitAt.startsOpen (h : UnitAt src depth ts r) : StartsOpen ts := by
  cases h with
  | bracket hform =>
    generalize hks : ts.map Token.kind = ks at hform
    cases hform
    obtain ⟨t, us, rfl, ht, -⟩ := List.map_eq_cons_iff.1 hks
    exact ⟨t, us, rfl, .inl ht⟩
  | parens ho => exact ⟨_, _, rfl, .inr ho⟩

theorem ChainAt.startsOpen (h : ChainAt src depth ts r) : StartsOpen ts := by
  cases h with
  | one hu => exact hu.startsOpen
  | more hu =>
    obtain ⟨t, us, rfl, ht⟩ := hu.startsOpen
    exact ⟨t, _, rfl, ht⟩

/-- The last token closes a bracket or a parenthesis. -/
def EndsClosed (ts : List Token) : Prop :=
  ∃ us e, ts = us ++ [e] ∧ (e.kind = .closeBracket ∨ e.kind = .closeParen)

theorem EndsClosed.append (h : EndsClosed us) (ts : List Token) : EndsClosed (ts ++ us) := by
  obtain ⟨us, e, rfl, he⟩ := h
  exact ⟨ts ++ us, e, by rw [List.append_assoc], he⟩

theorem UnitAt.endsClosed (h : UnitAt src depth ts r) : EndsClosed ts := by
  cases h with
  | bracket hform =>
    obtain ⟨us, e, rfl⟩ := (List.eq_nil_or_concat' ts).resolve_left (by rintro rfl; cases hform)
    refine ⟨us, e, rfl, .inl ?_⟩
    generalize hks : (us ++ [e]).map Token.kind = ks at hform
    cases hform
    simpa [List.getLast?_cons] using congrArg List.getLast? hks
  | parens _ _ hc => exact ⟨_, _, (List.cons_append ..).symm, .inr hc⟩

theorem LinksAt.endsClosed : ∀ {us : List Token} {links : List (Join × Rule)},
    LinksAt src depth us links → links ≠ [] → EndsClosed us
  | _, _, .nil, h => absurd rfl h
  | _, _, @LinksAt.cons _ _ t join ts r us links _ hu hl, _ => by
    cases links with
    | nil =>
      cases hl
      rw [List.append_nil]
      exact hu.endsClosed.append [t]
    | cons => exact ((LinksAt.endsClosed hl (List.cons_ne_nil _ _)).append ts).append [t]

theorem ChainAt.endsClosed (h : ChainAt src depth ts r) : EndsClosed ts := by
  cases h with
  | one hu => exact hu.endsClosed
  | more hu hl => exact (hl.endsClosed (List.cons_ne_nil _ _)).append _

/-- In the slice that the tokens stand in, they cover the same texts. -/
theorem agree_of_slice {slice : List Char} {start stop : Nat}
    (hslice : IsSlice text.toList start stop slice) (hstart : ∀ t ∈ ts, start ≤ t.span.start)
    (hplaced : Placed slice (ts.map (Token.back start))) :
    Agree (sourceOf text tokens) (sourceOf (String.ofList slice) us) start ts := by
  intro t ht u hu
  have hback : ∀ v ∈ ts, ∃ cs, IsSlice slice (v.span.start - start) (v.span.stop - start) cs := by
    intro v hv
    obtain ⟨cs, -, hcs⟩ := hplaced.spelled _ (List.mem_map_of_mem hv)
    exact ⟨cs, hcs⟩
  show String.ofList (Text.slice (String.ofList slice).toList _ _) =
    String.ofList (Text.slice text.toList _ _)
  rw [String.toList_ofList]
  congr 1
  obtain ⟨_, ht'⟩ := hback t ht
  obtain ⟨_, hu'⟩ := hback u hu
  have htstart := hstart t ht
  by_cases hle : t.span.start ≤ u.span.stop
  · obtain ⟨es, hes⟩ := ht'.exists_between hu' (by omega)
    have htext := hslice.trans hes
    rw [Nat.add_sub_cancel' htstart, Nat.add_sub_cancel' (by omega)] at htext
    rw [hes.slice_eq, htext.slice_eq]
  · -- nothing stands between a token and an earlier one
    have hback : u.span.stop - start ≤ t.span.start - start := by omega
    simp only [Text.slice, Nat.sub_eq_zero_of_le hback,
      Nat.sub_eq_zero_of_le (Nat.le_of_not_le hle), takeBytes]

/-- A rule that was read in a text has the source that stands there, and that source compiles to
it. -/
theorem HasCore.source (hscan : scan text = .ok tokens)
    (h : HasCore (sourceOf text tokens) config.maxDepth tokens r) :
    IsSlice text.toList r.span.start r.span.stop r.source.toList ∧
      compile config r.source = .ok (r.back r.span.start) := by
  obtain ⟨d, mid, hd, ⟨before, after, htokens⟩, hchain, hspan, hsource⟩ := h
  obtain ⟨us, e, hlast, he⟩ := hchain.endsClosed
  obtain ⟨t, rest, hfirst⟩ := List.exists_cons_of_ne_nil hchain.ne_nil
  have hscan' : scanFrom 0 text.toList = .ok (before ++ (t :: rest) ++ after) := by
    rw [← hfirst, htokens]
    exact hscan
  obtain ⟨slice, hslice, hscanned⟩ :=
    scan_slice (IsSlice.whole text.toList) he (hfirst.symm.trans hlast) hscan'
  have hextent : extent mid = ⟨t.span.start, e.span.stop⟩ := by
    have hstart : (extent mid).start = t.span.start := by rw [hfirst, extent_cons]
    have hstop : (extent mid).stop = e.span.stop := by rw [hlast, extent_concat]
    rw [← hstart, ← hstop]
  rw [← hfirst] at hscanned
  have hstart : ∀ u ∈ mid, t.span.start ≤ u.span.start := by
    have hplaced := (placed_of_scanFrom (IsSlice.whole text.toList) hscan).1
    have hinfix : mid <:+: tokens := ⟨before, after, htokens⟩
    intro u hu
    have hin := (in_extent (hplaced.sublist hinfix.sublist) hu).1
    rwa [hextent] at hin
  have hplaced := (placed_of_scanFrom (IsSlice.whole slice) hscanned).1
  have hagree : Agree (sourceOf text tokens)
      (sourceOf (String.ofList slice) (mid.map (Token.back t.span.start))) t.span.start mid :=
    agree_of_slice hslice hstart hplaced
  have htext : r.source = String.ofList slice := by
    rw [hsource, hextent]
    exact congrArg String.ofList hslice.slice_eq
  rw [hspan, hextent, htext, String.toList_ofList]
  refine ⟨hslice, compile_of_chainAt ?_ (hchain.moved hagree) hd⟩
  rw [scan, String.toList_ofList]
  exact hscanned

/-- A rule begins and ends with the brackets or parentheses of its source. -/
theorem HasCore.trim_source (hplaced : Placed text.toList tokens)
    (h : HasCore src depth tokens r) (hspan : r.span = ⟨0, byteLength text.toList⟩) :
    trim text.toList = text.toList := by
  obtain ⟨d, mid, -, hmid, hchain, hextent, -⟩ := h
  obtain ⟨t, rest, hfirst, ht⟩ := hchain.startsOpen
  obtain ⟨us, e, hlast, he⟩ := hchain.endsClosed
  have hstart : (extent mid).start = t.span.start := by rw [hfirst, extent_cons]
  have hstop : (extent mid).stop = e.span.stop := by rw [hlast, extent_concat]
  obtain ⟨cs, hcs, htslice⟩ := hplaced.spelled t (hmid.subset (hfirst ▸ List.mem_cons_self))
  obtain ⟨ds, hds, heslice⟩ := hplaced.spelled e (hmid.subset (by simp [hlast]))
  rw [← hstart, ← hextent, hspan] at htslice
  rw [← hstop, ← hextent, hspan] at heslice
  obtain ⟨c, hc, rfl⟩ : ∃ c, isSpace c = false ∧ cs = [c] := by
    rcases ht with ht | ht <;> rw [ht] at hcs <;> cases hcs
    · exact ⟨'[', by decide, rfl⟩
    · exact ⟨'(', by decide, rfl⟩
  obtain ⟨d, hd, rfl⟩ : ∃ d, isSpace d = false ∧ ds = [d] := by
    rcases he with he | he <;> rw [he] at hds <;> cases hds
    · exact ⟨']', by decide, rfl⟩
    · exact ⟨')', by decide, rfl⟩
  obtain ⟨back, hback⟩ := htslice.isPrefix
  obtain ⟨front, hfront⟩ := heslice.isSuffix
  exact trim_eq_self_of_ends hc hd hback.symm hfront.symm

theorem source_of_compile (h : compile config text = .ok r) :
    IsSlice text.toList r.span.start r.span.stop r.source.toList ∧
      compile config r.source = .ok (r.back r.span.start) := by
  obtain ⟨ts, hscan, hchain⟩ := exists_chainAt_of_compile h
  exact hchain.core.source hscan

/-- There is no white space around the source of a rule. -/
theorem trim_source_of_compile (h : compile config text = .ok r) :
    trim r.source.toList = r.source.toList := by
  obtain ⟨hslice, hagain⟩ := source_of_compile h
  obtain ⟨us, hscan', hchain'⟩ := exists_chainAt_of_compile hagain
  refine hchain'.core.trim_source (placed_of_scanFrom (IsSlice.whole _) hscan').1 ?_
  rw [Rule.back, span_mapSpans, Span.back, hslice.stop_eq, Nat.sub_self, Nat.add_sub_cancel_left]

end Grammar

open Grammar

/-- Every part of a compiled rule keeps the text at its span, the members of a part stand in it one
behind the other, and the source of a part compiles to that part, where it begins at the front. -/
theorem compile_source (config : Config) (text : String) (r : Rule)
    (h : Rule.compile config text = .ok r) (m : Rule) (hm : Rule.Part m r) :
    IsSlice text.toList m.span.start m.span.stop m.source.toList ∧
      (∀ p ∈ m.members, m.span.start ≤ p.span.start ∧ p.span.stop ≤ m.span.stop) ∧
      (m.members.Pairwise fun p q => p.span.stop ≤ q.span.start) ∧
      Rule.compile config m.source = .ok (m.back m.span.start) := by
  obtain ⟨ts, hscan, hchain⟩ := exists_chainAt_of_compile h
  have hcore := hchain.core.part hm
  obtain ⟨hslice, hagain⟩ := hcore.source hscan
  obtain ⟨d, mid, -, hmid, hmchain, -⟩ := hcore
  have hplaced := (placed_of_scanFrom (IsSlice.whole text.toList) hscan).1
  obtain ⟨hwithin, hpairwise⟩ := hmchain.ordered (hplaced.sublist hmid.sublist)
  exact ⟨hslice, hwithin, hpairwise, hagain⟩

theorem compile_source_of_member : ∃ r m,
    Rule.compile {} " [>\"é\"] && ([5|in(5)] || [<9]) " = .ok r ∧ Rule.Part m r ∧
      m.source = "[5|in(5)] || [<9]" ∧ m.span = ⟨13, 30⟩ ∧
      Rule.compile {} "[5|in(5)] || [<9]" = .ok (m.back 13) := by
  have hsecond : ((Rule.compile {} " [>\"é\"] && ([5|in(5)] || [<9]) ").toOption.bind
      fun r => r.members[1]?).map (fun m => (m.source, m.span)) =
        some ("[5|in(5)] || [<9]", ⟨13, 30⟩) := by decide +kernel
  obtain ⟨m, hm, hplace⟩ := Option.map_eq_some_iff.1 hsecond
  obtain ⟨r, hr, hmember⟩ := Option.bind_eq_some_iff.1 hm
  obtain ⟨hsource, hspan⟩ := Prod.mk.inj hplace
  have hpart : Rule.Part m r := .member (List.mem_of_getElem? hmember) .self
  obtain ⟨-, -, -, hagain⟩ := compile_source {} _ r (eq_ok_of_toOption hr) m hpart
  rw [hsource, hspan] at hagain
  exact ⟨r, m, eq_ok_of_toOption hr, hpart, hsource, hspan, hagain⟩

end Rulebook
