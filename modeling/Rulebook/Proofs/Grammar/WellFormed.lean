import Rulebook.Proofs.Evaluation.Proper

/-!
# Compiled rules are well formed

    node       exactly one group, of two members or more, which are well formed again
    bracket    no operand exactly where there is no target
               modifiers in strictly increasing rank, each with arguments in their bounds
               the set of active modifiers is the union of their flags, and no more

A node has no comparison, no modifiers and no force of its own: the type of rules has no place for
them.  The set of active modifiers grows while the modifiers are read, in the order in which they
are written, and a code that it contains already is refused.  What it holds in the end is the union
for the modifiers in the order in which they are applied, and a code is in it exactly when one of
them has it.
-/

namespace Rulebook

open Grammar

/-! ## Brackets -/

/-- Arguments in their bounds. -/
def Modifier.WellFormed : Modifier → Prop
  | .max limit | .min limit => Decimal.isFinite limit = true
  | .oneOf members => members ≠ []
  | .inTable columns => columns ≠ []
  | .roundUp digits | .roundDown digits => digits ≤ 15
  | _ => True

structure Bracket.WellFormed (b : Bracket) : Prop where
  operand_eq_none_iff : b.operand = .none ↔ b.target = none
  increasing : b.modifiers.Pairwise fun m m' => m.code.rank < m'.code.rank
  nodup : (b.modifiers.map Modifier.code).Nodup
  /-- A bit is set exactly when it is that of a modifier. -/
  active_iff : ∀ i, b.active.bits.getLsbD i = true ↔
    ∃ m ∈ b.modifiers, m.flag.bits.getLsbD i = true
  has_iff : ∀ c, b.has c = true ↔ ∃ m ∈ b.modifiers, m.code = c
  arguments : ∀ m ∈ b.modifiers, m.WellFormed

inductive Rule.WellFormed : Rule → Prop
  | bracket {b} : b.WellFormed → WellFormed (.bracket b)
  | node {source span join members} : 2 ≤ members.length → (∀ r ∈ members, WellFormed r) →
      WellFormed (.node source span [⟨join, members⟩])

namespace Grammar

theorem Accepts.wellFormed {code : ModifierCode} {args : List Argument} {m : Modifier}
    (h : Accepts code args m) : m.WellFormed := by
  have hproper := Modifier.proper_of_accepts h
  cases h with
  | max | min | roundUp | roundDown => exact hproper
  | oneOf hne hmembers =>
    rintro rfl
    exact hne (List.forall₂_nil_right_iff.1 hmembers)
  | inTable hne hcolumns =>
    rintro rfl
    exact hne (List.forall₂_nil_right_iff.1 hcolumns)
  | upper | lower | ignoreCase | email | required | between => trivial

theorem operand_ne_none {symbol : String} {op : Operand} (h : Operand.ofSymbol? symbol = some op) :
    op ≠ .none := by
  unfold Operand.ofSymbol? at h
  split at h <;> cases h <;> nofun

theorem ComparisonForm.operand_eq_none_iff {ks : List TokenKind} {op : Operand} {t : Option Target}
    (h : ComparisonForm ks op t) : op = .none ↔ t = none := by
  cases h with
  | absent => exact ⟨fun _ => rfl, fun _ => rfl⟩
  | equal => exact ⟨nofun, nofun⟩
  | operator hsymbol _ => exact ⟨fun h => absurd h (operand_ne_none hsymbol), nofun⟩

theorem BracketForm.wellFormed {ks : List TokenKind} {b : Bracket}
    (h : BracketForm ks (.bracket b.operand b.target b.modifiers b.active b.force)) :
    b.WellFormed := by
  cases h with
  | mk hcomparison hmodifiers horder hactive _ =>
    exact {
      operand_eq_none_iff := hcomparison.operand_eq_none_iff
      increasing := horder.increasing
      nodup := (horder.perm.map Modifier.code).symm.nodup horder.nodup
      active_iff := fun i => by rw [hactive i, List.any_eq_true]
      has_iff := fun _ => hactive.contains_iff
      arguments := fun m hm => by
        obtain ⟨code, args, haccepts⟩ := hmodifiers.accepted m (horder.perm.mem_iff.1 hm)
        exact haccepts.wellFormed }

/-! ## Trees -/

/-- The rules of a shape of one group are nodes of one group. -/
theorem exists_node_of_shape {r : Rule} {join : Join} {shapes : List Shape}
    (h : r.shape = .node [⟨join, shapes⟩]) :
    ∃ source span members, r = .node source span [⟨join, members⟩] ∧
      members.map Rule.shape = shapes := by
  cases r with
  | bracket b => cases h
  | node source span groups =>
    rw [Rule.shape] at h
    obtain _ | ⟨⟨join', members⟩, _ | ⟨g, gs⟩⟩ := groups
    · cases h
    · simp only [Rule.groupShapes, Rule.groupShape, Shape.node.injEq, List.cons.injEq,
        GroupOf.mk.injEq, and_true, Rule.memberShapes_eq_map] at h
      obtain ⟨rfl, hshapes⟩ := h
      exact ⟨source, span, members, rfl, hshapes⟩
    · cases h

mutual

theorem UnitForm.wellFormed {depth : Nat} {ks : List TokenKind} {s : Shape} :
    UnitForm depth ks s → ∀ r : Rule, r.shape = s → r.WellFormed
  | .bracket hb => by
    rintro r rfl
    cases r with
    | bracket b => exact .bracket hb.wellFormed
    | node => cases hb
  | .parens hc => hc.wellFormed

theorem ChainForm.wellFormed {depth : Nat} {ks : List TokenKind} {s : Shape} :
    ChainForm depth ks s → ∀ r : Rule, r.shape = s → r.WellFormed
  | .one hu => hu.wellFormed
  | .more hu hl => by
    intro r hr
    obtain ⟨source, span, members, rfl, hshapes⟩ := exists_node_of_shape hr
    refine .node ?_ fun r hr => ?_
    · have hlength := congrArg List.length hshapes
      simp only [List.length_map, List.length_cons] at hlength
      omega
    · have hmem : r.shape ∈ members.map Rule.shape := List.mem_map_of_mem hr
      rw [hshapes, List.mem_cons] at hmem
      rcases hmem with hmem | hmem
      · exact hu.wellFormed r hmem
      · exact hl.wellFormed r hmem

/-- The first link of a chain is among its links. -/
theorem LinksForm.wellFormed {depth : Nat} {ks : List TokenKind} {links : List (Join × Shape)} :
    LinksForm depth ks links → ∀ r : Rule, r.shape ∈ links.map Prod.snd → r.WellFormed
  | .nil => nofun
  | .cons _ hu hl => by
    intro r hr
    rw [List.map_cons, List.mem_cons] at hr
    rcases hr with hr | hr
    · exact hu.wellFormed r hr
    · exact hl.wellFormed r hr

end

end Grammar

/-- **What compiles is well formed**: a node at any depth has exactly one group, of two members or
more, and a bracket at any depth has an operand with its target, its modifiers in order and with
arguments in their bounds, and exactly their flags in the set of active modifiers. -/
theorem Rule.wellFormed_of_compile {config : Config} {text : String} {r : Rule}
    (h : compile config text = .ok r) : r.WellFormed := by
  obtain ⟨ts, -, hchain⟩ := compile_sound h
  exact hchain.wellFormed r rfl

theorem Rule.wellFormed_of_compile_nested :
    ∃ r, compile {} "([>\"1\"]&&[|r|MX(5)|u])||[|in(a,b)|ru(2)-f]" = .ok r ∧ r.WellFormed ∧
      r.leaves.map (fun b => b.modifiers.map (·.code)) =
        [[], [.upper, .max, .required], [.oneOf, .roundUp]] ∧
      r.leaves.map (·.active.bits) = [0, 0x029, 0x280] := by
  have hrun : ((compile {} "([>\"1\"]&&[|r|MX(5)|u])||[|in(a,b)|ru(2)-f]").toOption.map fun r =>
      (r.leaves.map fun b => b.modifiers.map (·.code), r.leaves.map (·.active.bits))) =
      some ([[], [.upper, .max, .required], [.oneOf, .roundUp]], [0, 0x029, 0x280]) := by
    decide +kernel
  obtain ⟨r, hr, hpair⟩ := Option.map_eq_some_iff.1 hrun
  obtain ⟨hcodes, hactive⟩ := Prod.mk.inj hpair
  have hcompile := eq_ok_of_toOption hr
  exact ⟨r, hcompile, wellFormed_of_compile hcompile, hcodes, hactive⟩

end Rulebook
