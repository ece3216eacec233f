import Rulebook.Proofs.Action.ActionParameter
import Rulebook.Proofs.Action.RuleParameter
import Rulebook.Proofs.Grammar.Source
import Rulebook.Proofs.Value.Literal

/-!
# Actions made in code

`of` and `negate` give an action the source that reads as it.  `Built config n a` says that the
action was made by `of` and negated `n` times, from parameters that are literals, rules or actions
made in this way.  Where the actions nest as deep as may be read, reading gives the action again:

    Built config n a,  a.height ≤ config.maxDepth
      →  parse config a.source = .ok (.action (a.mapRules Rule.inSource))

A rule among the parameters was read elsewhere, in a text of its own; read again it is the same, but
its spans are those in its source.
-/

namespace Rulebook

open Text TopLevel

/-- The rule in the text that is its source. -/
def Rule.inSource (r : Rule) : Rule := r.back r.span.start

namespace Action

/-! ## Rules in an action -/

mutual

/-- The action with `f` applied to the rules among its parameters, at any depth. -/
def mapRules (f : Rule → Rule) : Action → Action
  | ⟨kind, name, params, negative, isTest, source⟩ =>
    ⟨kind, name, mapParams f params, negative, isTest, source⟩

def mapParams (f : Rule → Rule) : List (ParamOf Action) → List (ParamOf Action)
  | [] => []
  | p :: ps => mapParam f p :: mapParams f ps

def mapParam (f : Rule → Rule) : ParamOf Action → ParamOf Action
  | .rule r => .rule (f r)
  | .action a => .action (mapRules f a)
  | .literal v => .literal v
  | .reference object property => .reference object property

end

/-! ## Actions made by `of` and `negate` -/

mutual

/-- An action made by `of` and negated `n` times.  Its kind takes as many parameters as it has, and
they are actions where they must be. -/
inductive Built (config : Config) : Nat → Action → Prop
  | of {kind params} (hcount : kind.admits params.length = true)
      (hplaces : ∀ i ∈ kind.actionPlaces params.length, ∃ b, params[i]? = some (.action b))
      (hparams : ∀ p ∈ params, BuiltParam config p) : Built config 0 (.of kind params)
  | negate {n a} (h : Built config n a) : Built config (n + 1) a.negate

/-- A parameter of such an action: null, a truth value, a whole number, a date, a text without
double quotes, a rule that was compiled from a text, or such an action. -/
inductive BuiltParam (config : Config) : Param → Prop
  | scalar {v : Value} (h : v.IsScalar) : BuiltParam config (.literal v)
  | text {s : String} (h : '"' ∉ s.toList) : BuiltParam config (.literal (.text s))
  | rule {text r} (h : Rule.compile config text = .ok r) : BuiltParam config (.rule r)
  | action {n a} (h : Built config n a) : BuiltParam config (.action a)

end

/-! ## What the operations keep -/

variable {config : Config} {nested : Nested} {kind : ActionKind} {a : Action} {p : Param}
  {ps : List Param} {v : Value} {cs name inner : List Char} {position levels n : Nat}
  {f : Rule → Rule}

theorem mapParams_eq_map (ps : List Param) : mapParams f ps = ps.map (mapParam f) := by
  induction ps with
  | nil => rfl
  | cons p ps ih => rw [mapParams, ih, List.map_cons]

theorem mapRules_of :
    (of kind ps).mapRules f = { of kind ps with params := ps.map (mapParam f) } := by
  rw [← mapParams_eq_map]
  rfl

theorem mapRules_negate (a : Action) : a.negate.mapRules f = (a.mapRules f).negate := by
  cases a
  rfl

theorem height_negate (a : Action) : a.negate.height = a.height := by
  cases a
  rfl

theorem negative_mapRules (a : Action) : (a.mapRules f).negative = a.negative := by
  cases a
  rfl

/-- An action is negative when it was negated an odd number of times. -/
theorem Built.negative_eq (h : Built config n a) : a.negative = decide (n % 2 = 1) := by
  induction n generalizing a with
  | zero =>
    cases h
    rfl
  | succ n ih =>
    obtain ⟨h⟩ | ⟨h⟩ := h
    rw [Action.negate, ih h, ← decide_not, decide_eq_decide]
    omega

/-! ## How they are spelled -/

theorem isName_name (kind : ActionKind) : IsName kind.name.toList := by
  constructor
  · cases kind <;> decide
  · rw [← List.all_eq_true]
    cases kind <;> decide

theorem ofName?_name (kind : ActionKind) : ActionKind.ofName? kind.name = some kind := by
  cases kind <;> decide

/-- The parameters of an action made by `of` stand between its parentheses, with commas between
them. -/
theorem toList_source_of : (of kind ps).source.toList =
    call kind.name.toList (List.intercalate [','] (ps.map fun p => p.text.toList)) := by
  rw [of, call]
  simp [join, Function.comp_def]

theorem toList_source_negate (a : Action) : a.negate.source.toList = '!' :: a.source.toList := by
  rw [negate, String.toList_append]
  rfl

theorem Built.toList_source (h : Built config n a) :
    ∃ inner, a.source.toList = marked n a.kind.name.toList inner := by
  induction n generalizing a with
  | zero =>
    obtain ⟨hcount, hplaces, hparams⟩ := h
    exact ⟨_, toList_source_of⟩
  | succ n ih =>
    obtain ⟨h⟩ | ⟨h⟩ := h
    obtain ⟨inner, hsource⟩ := ih h
    refine ⟨inner, ?_⟩
    rw [toList_source_negate, hsource]
    rfl

/-! ## Literals and rules among parameters -/

theorem looksLikeAction_of_not_mem (h : '(' ∉ cs) : looksLikeAction cs = false := by
  have hsuffix : trimStart (cs.dropWhile (· == '!')) <:+ cs :=
    (List.dropWhile_suffix isSpace).trans (List.dropWhile_suffix (· == '!'))
  have hnone : cutOnce '(' (trimStart (cs.dropWhile (· == '!'))) = none :=
    cutOnce_eq_none fun hmem => h (hsuffix.subset hmem)
  rw [looksLikeAction, hnone]

/-- A text without quotes, brackets, parentheses and commas is a bare literal. -/
theorem readParam_unmarked (h : ∀ c ∈ cs, c ∉ marks) (hne : cs ≠ []) (position : Nat) :
    readParam config nested cs position = .ok (.literal (.literal (String.ofList cs))) := by
  have hlooks : looksLikeAction cs = false :=
    looksLikeAction_of_not_mem fun hmem => h '(' hmem (by decide)
  obtain ⟨c, rest, rfl⟩ := List.exists_cons_of_ne_nil hne
  have hc := h c List.mem_cons_self
  simp only [marks, List.mem_cons, List.not_mem_nil, or_false, not_or] at hc
  unfold readParam
  simp only [List.headD_cons, hc, or_self, if_false, hlooks, Bool.false_eq_true]

theorem not_mem_marks_of_isLiteralChar {c : Char} (h : Value.IsLiteralChar c) : c ∉ marks := by
  rcases h with hc | rfl | rfl
  · exact not_mem_marks (Token.IsNameChar.plain (.inl hc)).2.1
  · decide
  · decide

theorem text_scalar (h : v.IsScalar) : (ParamOf.literal v : Param).text = v.display := by
  cases v with
  | text => exact h.elim
  | null | bool | integer | date | decimal | list | object => rfl

theorem readsAs_literal (hchars : ∀ c ∈ cs, Value.IsLiteralChar c) (hne : cs ≠ []) :
    ReadsAs config nested cs (.literal (.literal (String.ofList cs))) := by
  have hmarks : ∀ c ∈ cs, c ∉ marks := fun c hc => not_mem_marks_of_isLiteralChar (hchars c hc)
  have htrim : trim cs = cs := trim_eq_self fun c hc => (hchars c hc).not_space
  exact .of_trim (whole_of_unmarked hmarks) htrim hne fun _ => readParam_unmarked hmarks hne _

/-- A text that reads as a whole number is a parameter as it stands. -/
theorem readsAs_integer {n : Int64} (h : int64? cs = some n) :
    ReadsAs config nested cs (.literal (.integer n)) := by
  have hspells := spells_of_int64? h
  obtain ⟨c, ds, hcons, -⟩ := Value.exists_cons_of_spells hspells
  have hne : cs ≠ [] := hcons ▸ List.cons_ne_nil c ds
  rw [← Value.literal_of_int64? h]
  exact readsAs_literal (Value.spells_chars hspells) hne

theorem readsAs_scalar (h : v.IsScalar) :
    ReadsAs config nested (ParamOf.literal v : Param).text.toList (.literal v) := by
  have hread : ReadsAs config nested v.display.toList
      (.literal (.literal (String.ofList v.display.toList))) :=
    readsAs_literal (Value.display_chars h) (Value.display_ne_nil h)
  rwa [String.ofList_toList, Value.literal_display h, ← text_scalar h] at hread

theorem readsAs_text {s : String} (h : '"' ∉ s.toList) :
    ReadsAs config nested (ParamOf.literal (.text s) : Param).text.toList (.literal (.text s)) := by
  have htext : (ParamOf.literal (.text s) : Param).text.toList = '"' :: (s.toList ++ ['"']) := by
    simp [ParamOf.text]
  have htrim : trim ('"' :: (s.toList ++ ['"'])) = '"' :: (s.toList ++ ['"']) :=
    trim_eq_self_of_ends (by decide) (by decide) rfl (List.cons_append ..).symm
  rw [htext]
  refine .of_trim (whole_quoted h) htrim (List.cons_ne_nil _ _) fun position => ?_
  have hquoted : readQuoted '"' ('"' :: (s.toList ++ ['"'])) position =
      .ok (.literal (.text s)) := by
    simp [readQuoted, dropLast?, Option.filter, h]
  unfold readParam
  exact hquoted

theorem readsAs_source {text : String} {r : Rule} (h : Rule.compile config text = .ok r) :
    ReadsAs config nested r.source.toList (.rule r.inSource) := by
  have hagain : Rule.compile config r.source = .ok r.inSource := (Grammar.source_of_compile h).2
  obtain ⟨ks, hlex, hform⟩ := Grammar.derives_iff_lexes.1 (Grammar.compile_sound hagain)
  refine readsAs_rule hlex hform ?_
  rw [Grammar.trim_source_of_compile h, String.ofList_toList, hagain]

/-! ## Actions among parameters -/

theorem not_marksApart_marked (hname : IsName name) : ¬ MarksApart (marked n name inner) := by
  obtain ⟨c, cs, rfl, hc, hspace⟩ := hname.exists_cons
  have hdrop : (marked n (c :: cs) inner).dropWhile (· == '!') = call (c :: cs) inner := by
    rw [marked, List.dropWhile_append_of_pos (by simp)]
    exact List.dropWhile_cons_of_neg (by simpa using hc)
  have hstart : trimStart (call (c :: cs) inner) = call (c :: cs) inner := trimStart_cons hspace
  rw [MarksApart, hdrop, hstart]
  simpa [call] using hc

/-- An action that is read from such a text is a parameter as it stands. -/
theorem readsAs_marked (hname : IsName name)
    (h : ∀ position, readBody config (read config levels) (marked n name inner) position = .ok a) :
    ReadsAs config (read config (levels + 1)) (marked n name inner) (.action a) := by
  have htrim : trim (marked n name inner) = marked n name inner := trim_marked hname n
  have hread : ∀ position, read config (levels + 1) (marked n name inner) position = .ok a := by
    intro position
    rw [read_of_trim htrim (List.ne_nil_of_mem (paren_mem_marked n)), h]
  rw [← htrim] at h hread
  have hparam := readsAs_action (h 0) (paren_mem_marked n) hread
  rwa [htrim, if_neg (not_marksApart_marked hname)] at hparam

/-! ## Reading -/

/-- One more exclamation mark negates the action. -/
theorem readBody_negate (h : readBody config nested cs (position + 1) = .ok a) :
    readBody config nested ('!' :: cs) position = .ok a.negate := by
  obtain ⟨hname, kind, params, hkind, hparams, hcount, hplaces, rfl⟩ := readBody_ok_iff.1 h
  obtain ⟨before, hbefore⟩ := readMarks_suffix cs
  have hlength : byteLength cs = byteLength before + byteLength (readMarks cs).2 := by
    rw [← byteLength_append, hbefore]
  have hstart : position + (byteLength ('!' :: cs) - byteLength (readMarks cs).2) =
      position + 1 + (byteLength cs - byteLength (readMarks cs).2) := by
    have hmark : byteLength ('!' :: cs) = 1 + byteLength cs := rfl
    omega
  have hmarks : readMarks ('!' :: cs) = (!(readMarks cs).1, (readMarks cs).2) := rfl
  have hsource : String.ofList ('!' :: cs) = "!" ++ String.ofList cs := by simp
  refine readBody_ok_iff.2 ?_
  rw [hmarks, hsource]
  dsimp only
  rw [hstart]
  exact ⟨hname, kind, params, hkind, hparams, hcount, hplaces, rfl⟩

/-- Where actions must stand they stand still, after a change of rules. -/
theorem misplaced?_mapParams
    (h : ∀ i ∈ kind.actionPlaces ps.length, ∃ b, ps[i]? = some (.action b)) :
    misplaced? kind (ps.map (mapParam f)) = none := by
  rw [misplaced?, List.find?_eq_none, List.length_map]
  intro i hi
  obtain ⟨b, hb⟩ := h i hi
  rw [List.getElem?_map, hb]
  simp [mapParam, isAction]

theorem readBody_of (hcount : kind.admits ps.length = true)
    (hplaces : ∀ i ∈ kind.actionPlaces ps.length, ∃ b, ps[i]? = some (.action b))
    (hparams : ∀ p ∈ ps, ReadsAs config nested p.text.toList (mapParam f p)) (position : Nat) :
    readBody config nested (of kind ps).source.toList position = .ok ((of kind ps).mapRules f) := by
  have hcount' : kind.admits (ps.map (mapParam f)).length = true := by rwa [List.length_map]
  have hkind : ActionKind.ofName? (String.ofList kind.name.toList) = some kind := by
    rw [String.ofList_toList, ofName?_name]
  have hread := readBody_call (isName_name kind) hkind
    (readParams_joined hparams (position + byteLength kind.name.toList + 1)) hcount'
    (misplaced?_mapParams hplaces)
  rw [← toList_source_of, String.ofList_toList, String.ofList_toList] at hread
  rw [hread, mapRules_of]
  rfl

mutual

/-- An action made in code is read from its source, but for the spans in its rules. -/
theorem Built.read {config : Config} {n : Nat} {a : Action} {levels : Nat} :
    Built config n a → a.height ≤ levels → ∀ position,
      readBody config (Action.read config levels) a.source.toList position =
        .ok (a.mapRules Rule.inSource)
  | .of hcount hplaces hparams, hlevels, position =>
    readBody_of hcount hplaces (fun p hp =>
      BuiltParam.read (hparams p hp) (Nat.le_trans (paramHeight_le hp) hlevels)) position
  | .negate (a := a) h, hlevels, position => by
    have hread := Built.read h (height_negate a ▸ hlevels) (position + 1)
    rw [mapRules_negate, toList_source_negate]
    exact readBody_negate hread

/-- Each of its parameters is read from its own text. -/
theorem BuiltParam.read {config : Config} {p : Param} {levels : Nat} :
    BuiltParam config p → paramHeight p ≤ levels →
      ReadsAs config (Action.read config levels) p.text.toList (mapParam Rule.inSource p)
  | .scalar h, _ => readsAs_scalar h
  | .text h, _ => readsAs_text h
  | .rule h, _ => readsAs_source h
  | .action (a := a) h, hlevels => by
    -- one of the levels is for the action that has this one as a parameter
    obtain ⟨levels, rfl⟩ := Nat.exists_eq_add_one_of_ne_zero (Nat.ne_zero_of_lt hlevels)
    have hread := Built.read h (Nat.le_of_succ_le_succ hlevels)
    obtain ⟨inner, hsource⟩ := h.toList_source
    show ReadsAs config (Action.read config (levels + 1)) a.source.toList _
    rw [hsource] at hread ⊢
    exact readsAs_marked (isName_name _) hread

end

end Action

open Rulebook.Action

/-- The source of an action made in code is read as that action alone: its rules have the spans of
their own sources, and all else is the same.  It is negative when it was negated an odd number of
times. -/
theorem parse_of_built (config : Config) (n : Nat) (a : Action) (h : Built config n a)
    (hheight : a.height ≤ config.maxDepth) :
    Instruction.parse config a.source = .ok (.action (a.mapRules Rule.inSource)) ∧
      (a.mapRules Rule.inSource).negative = decide (n % 2 = 1) := by
  obtain ⟨inner, hsource⟩ := h.toList_source
  have htrim : trim a.source.toList = a.source.toList := by
    rw [hsource, trim_marked (isName_name _)]
  have hne : a.source.toList ≠ [] := by
    rw [hsource]
    exact List.ne_nil_of_mem (paren_mem_marked n)
  have hbody := h.read hheight 0
  have hparse := Instruction.parse_of_trim htrim hne (pieces_of_readBody hbody 0) hbody
  rw [String.ofList_toList] at hparse
  exact ⟨hparse, (negative_mapRules a).trans h.negative_eq⟩

theorem parse_of_built_nested : ∃ r a,
    Rule.compile {} " ([>5] && ([<9])) " = .ok r ∧
      a = negate (.of .each [.action (negate (negate (.of .list [.literal .null,
        .literal (.integer (-5)), .literal (.date ⟨2024, 2, 29, by decide⟩),
        .literal (.text "it's => (,"), .rule r])))]) ∧
      Built {} 1 a ∧ a.height ≤ 32 ∧
      a.source = "!EACH(!!LIST(null,-5,2024-02-29,\"it's => (,\",[>5] && ([<9])))" ∧
      Instruction.parse {} "!EACH(!!LIST(null,-5,2024-02-29,\"it's => (,\",[>5] && ([<9])))" =
        .ok (.action (a.mapRules Rule.inSource)) := by
  have hsource : (Rule.compile {} " ([>5] && ([<9])) ").toOption.map Rule.source =
      some "[>5] && ([<9])" := by decide +kernel
  obtain ⟨r, hr, hsource⟩ := Option.map_eq_some_iff.1 hsource
  have hr := eq_ok_of_toOption hr
  let inside : Action := .of .list [.literal .null, .literal (.integer (-5)),
    .literal (.date ⟨2024, 2, 29, by decide⟩), .literal (.text "it's => (,"), .rule r]
  have hinside : Built {} 2 inside.negate.negate := by
    refine .negate (.negate (.of rfl nofun ?_))
    simp only [List.forall_mem_cons]
    exact ⟨.scalar trivial, .scalar trivial, .scalar trivial, .text (by decide), .rule hr,
      List.forall_mem_nil _⟩
  have hbuilt : Built {} 1 (negate (.of .each [.action inside.negate.negate])) := by
    refine .negate (.of rfl ?_ ?_)
    · intro i hi
      obtain rfl := List.mem_singleton.1 hi
      exact ⟨_, rfl⟩
    · simp only [List.forall_mem_cons]
      exact ⟨.action hinside, List.forall_mem_nil _⟩
  have hheight : (negate (.of .each [.action inside.negate.negate])).height ≤ 32 :=
    (by decide : 1 ≤ 32)
  have htext : (negate (.of .each [.action inside.negate.negate])).source =
      "!EACH(!!LIST(null,-5,2024-02-29,\"it's => (,\",[>5] && ([<9])))" := by
    simp only [inside, negate, of, List.map_cons, List.map_nil, ParamOf.text, hsource]
    decide +kernel
  obtain ⟨hparse, -⟩ := parse_of_built {} 1 _ hbuilt hheight
  rw [htext] at hparse
  exact ⟨r, _, hr, rfl, hbuilt, hheight, htext, hparse⟩

end Rulebook
