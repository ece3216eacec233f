import Rulebook.Proofs.Decimal.Order
import Rulebook.Proofs.Evaluation.Unforced
import Rulebook.Proofs.Value.Numbers

/-!
# The modifiers of compiled brackets

Every bracket of a compiled rule, however deep, has its modifiers in the order of application, none
of them twice, and each of them is proper (`proper_of_compile`): its limit is finite, there are at
most fifteen decimals, and the bounds of a range of numbers are in order as decimals.
-/

namespace Rulebook

open Decimal Grammar

/-! ## Brackets of shapes -/

namespace Shape

mutual

/-- The modifiers of the brackets, from left to right. -/
def modifierLists : Shape → List (List Modifier)
  | .bracket _ _ ms _ _ => [ms]
  | .node groups => groupsModifiers groups

def groupsModifiers : List (GroupOf Shape) → List (List Modifier)
  | [] => []
  | g :: gs => groupModifiers g ++ groupsModifiers gs

def groupModifiers : GroupOf Shape → List (List Modifier)
  | ⟨_, members⟩ => membersModifiers members

def membersModifiers : List Shape → List (List Modifier)
  | [] => []
  | s :: ss => modifierLists s ++ membersModifiers ss

end

end Shape

namespace Rule

open Shape

mutual

theorem map_leaves : ∀ r : Rule, r.leaves.map Bracket.modifiers = r.shape.modifierLists
  | .bracket _ => rfl
  | .node _ _ groups => map_groupsLeaves groups

theorem map_groupsLeaves : ∀ gs : List (GroupOf Rule),
    (groupsLeaves gs).map Bracket.modifiers = groupsModifiers (groupShapes gs)
  | [] => rfl
  | g :: gs => by
    rw [groupsLeaves, List.map_append, map_groupLeaves g, map_groupsLeaves gs]
    rfl

theorem map_groupLeaves : ∀ g : GroupOf Rule,
    (groupLeaves g).map Bracket.modifiers = groupModifiers (groupShape g)
  | ⟨_, members⟩ => map_membersLeaves members

theorem map_membersLeaves : ∀ rs : List Rule,
    (membersLeaves rs).map Bracket.modifiers = membersModifiers (memberShapes rs)
  | [] => rfl
  | r :: rs => by
    rw [membersLeaves, List.map_append, map_leaves r, map_membersLeaves rs]
    rfl

end

end Rule

/-! ## Modifiers as the grammar makes them -/

namespace Grammar

open Shape

/-- Modifiers that were built of arguments, in the order of application. -/
structure Built (ms : List Modifier) : Prop where
  accepted : ∀ m ∈ ms, ∃ code args, Accepts code args m
  increasing : ms.Pairwise fun m m' => m.code.rank < m'.code.rank

theorem ModifiersForm.accepted {ks : List TokenKind} {ms : List Modifier}
    (h : ModifiersForm ks ms) : ∀ m ∈ ms, ∃ code args, Accepts code args m := by
  induction h with
  | nil => nofun
  | cons _ _ haccepts _ ih =>
    intro m hm
    rcases List.mem_cons.1 hm with rfl | hm
    · exact ⟨_, _, haccepts⟩
    · exact ih m hm

mutual

theorem UnitForm.built {depth : Nat} {ks : List TokenKind} {s : Shape} :
    UnitForm depth ks s → ∀ ms ∈ s.modifierLists, Built ms
  | .bracket hb => by
    cases hb with
    | mk _ hmodifiers horder _ _ =>
      intro ms hms
      rw [modifierLists, List.mem_singleton] at hms
      subst hms
      exact ⟨fun m hm => hmodifiers.accepted m (horder.perm.mem_iff.1 hm), horder.increasing⟩
  | .parens hc => hc.built

theorem ChainForm.built {depth : Nat} {ks : List TokenKind} {s : Shape} :
    ChainForm depth ks s → ∀ ms ∈ s.modifierLists, Built ms
  | .one hu => hu.built
  | .more hu hl => by
    intro ms hms
    have hlinks := hl.built
    rw [List.map_cons] at hlinks
    simp only [modifierLists, groupsModifiers, groupModifiers, membersModifiers, List.append_nil,
      List.mem_append] at hms
    rcases hms with hms | hms
    · exact hu.built ms hms
    · exact hlinks ms (List.mem_append.2 hms)

theorem LinksForm.built {depth : Nat} {ks : List TokenKind} {links : List (Join × Shape)} :
    LinksForm depth ks links → ∀ ms ∈ membersModifiers (links.map Prod.snd), Built ms
  | .nil => nofun
  | .cons _ hu hl => by
    intro ms hms
    rw [List.map_cons, membersModifiers, List.mem_append] at hms
    rcases hms with hms | hms
    · exact hu.built ms hms
    · exact hl.built ms hms

end

theorem built_of_compile {config : Config} {text : String} {r : Rule} {b : Bracket}
    (h : Rule.compile config text = .ok r) (hb : b ∈ r.leaves) : Built b.modifiers := by
  obtain ⟨ts, -, hchain⟩ := compile_sound h
  refine hchain.built _ ?_
  rw [← Rule.map_leaves]
  exact List.mem_map_of_mem hb

end Grammar

/-! ## Proper modifiers -/

namespace Value

/-- What a bound of a range is: a number, or a date. -/
inductive IsBound : Value → Prop
  | integer (n : Int64) : IsBound (.integer n)
  | decimal {x : Float} : isFinite x = true → IsBound (.decimal x)
  | date (d : Date) : IsBound (.date d)

theorem isFinite_of_readFinite? {cs : List Char} {x : Float} (h : readFinite? cs = some x) :
    isFinite x = true := (Option.filter_eq_some_iff.1 h).2

theorem isBound_of_boundForm {a : Argument} {v : Value} (h : BoundForm a v) : v.IsBound := by
  obtain ⟨hv⟩ := h
  unfold literal at hv ⊢
  dsimp only at hv ⊢
  split at hv
  · rcases hv with hv | hv <;> cases hv
  · next hnull =>
    rw [if_neg hnull]
    cases hinteger : Text.int64? (Text.trim a.text.toList) with
    | some n => exact .integer n
    | none =>
      rw [hinteger] at hv
      cases hread : readFinite? (Text.trim a.text.toList) with
      | some x => exact .decimal (isFinite_of_readFinite? hread)
      | none =>
        rw [hread] at hv
        dsimp only at hv ⊢
        split at hv
        · rcases hv with hv | hv <;> cases hv
        split at hv
        · rcases hv with hv | hv <;> cases hv
        next htrue hfalse =>
        rw [if_neg htrue, if_neg hfalse]
        cases hdate : Date.read? (Text.trim a.text.toList) with
        | some d => exact .date d
        | none =>
          -- what is left is a text that reads as none of these
          rw [hdate] at hv
          simp only [asDecimal?, asDate?, String.toList_ofList, Text.trim_trim, hread, hdate] at hv
          rcases hv with hv | hv <;> cases hv

end Value

/-- A bound that is the number `p`, for which the decimal `x` stands. -/
structure NumberBound (a : Value) (p : ℚ) (x : Float) : Prop where
  number : a.number? = some p
  decimal : a.asDecimal? = some x
  stands : Value.Stands a p x

namespace NumberBound

variable {a : Value} {p : ℚ} {x : Float}

theorem cases (h : NumberBound a p x) : (∃ n, a = .integer n) ∨ a = .decimal x := by
  obtain ⟨hnumber, hdecimal, -⟩ := h
  cases a with
  | integer n => exact .inl ⟨n, rfl⟩
  | decimal y => exact .inr (congrArg Value.decimal (Option.some.inj hdecimal))
  | null | bool | text | date | list | object => cases hnumber

theorem isNumber (h : NumberBound a p x) : a.isNumber = true := by
  obtain ⟨n, rfl⟩ | rfl := h.cases <;> rfl

theorem asDate? (h : NumberBound a p x) : a.asDate? = none := by
  obtain ⟨n, rfl⟩ | rfl := h.cases <;> rfl

theorem measure (h : NumberBound a p x) : Modifier.measure a = .ok x := by
  have hdecimal := h.decimal
  obtain ⟨n, rfl⟩ | rfl := h.cases
  · exact congrArg Except.ok (Option.some.inj hdecimal)
  · rfl

theorem isNaN (h : NumberBound a p x) : Decimal.isNaN x = false :=
  isNaN_of_isFinite h.stands.nearest.finite

/-- A number and a date are compared by their texts, whichever comes first. -/
theorem compareLoose_date (h : NumberBound a p x) (ci : Bool) (d : Date) :
    Value.compareLoose ci a (.date d) =
      Value.compareText ci a.toText (Value.date d).toText := by
  obtain ⟨n, rfl⟩ | rfl := h.cases <;> rfl

theorem date_compareLoose (h : NumberBound a p x) (ci : Bool) (d : Date) :
    Value.compareLoose ci (.date d) a =
      Value.compareText ci (Value.date d).toText a.toText := by
  obtain ⟨n, rfl⟩ | rfl := h.cases <;> rfl

end NumberBound

/-- A bound is a number or a date. -/
theorem Value.IsBound.cases {a : Value} (h : a.IsBound) :
    (∃ p x, NumberBound a p x) ∨ ∃ d, a = .date d := by
  have hnumber {p : ℚ} (hp : a.number? = some p) : ∃ p x, NumberBound a p x := by
    obtain ⟨x, hx, hstands⟩ := Value.exists_stands hp
    exact ⟨p, x, hp, hx, hstands⟩
  cases h with
  | integer n => exact .inl (hnumber rfl)
  | decimal hx => exact .inl (hnumber (if_pos hx))
  | date d => exact .inr ⟨d, rfl⟩

namespace Modifier

/-- The bounds of a range of numbers, as decimals. -/
def lowBound (low high : Value) : Float := (numericBounds low high).1

def highBound (low high : Value) : Float := (numericBounds low high).2

/-- Bounds in order. -/
structure InRange (lo hi : Float) : Prop where
  low_number : isNaN lo = false
  high_number : isNaN hi = false
  ordered : exact lo ≤ exact hi

/-- What the parser sees to. -/
def Proper : Modifier → Prop
  | .max limit | .min limit => isFinite limit = true
  | .roundUp digits | .roundDown digits => digits ≤ 15
  | .between low high => isDateRange low = false →
      InRange (lowBound low high) (highBound low high)
  | _ => True

/-- Numbers in the order of values are in that of the decimals that stand for them. -/
theorem exact_le_of_compareLoose {a b : Value} {p q : ℚ} {x y : Float} (ha : NumberBound a p x)
    (hb : NumberBound b q y) (h : Value.compareLoose false a b ≠ .gt) : exact x ≤ exact y := by
  obtain ⟨hintegers, -⟩ := Value.compareLoose_numbers false ha.number hb.number
  by_cases hkind : a.kind = .integer ∧ b.kind = .integer
  · rw [hintegers hkind, compare_le_iff_le] at h
    exact ha.stands.nearest.mono_le hb.stands.nearest h
  · rw [Value.kind_eq_integer_iff ha.number, Value.kind_eq_integer_iff hb.number] at hkind
    rw [Value.compareLoose_of_asDecimal ha.decimal hb.decimal hkind] at h
    refine not_lt.1 fun hlt => h ?_
    rw [compare_gt_iff_gt.2 hlt]
    rfl

theorem inRange_of_bounds {low high : Value} (hlow : low.IsBound) (hhigh : high.IsBound)
    (h : Value.compareLoose false low high ≠ .gt) (hdate : isDateRange low = false) :
    InRange (lowBound low high) (highBound low high) := by
  obtain ⟨p, x, hx⟩ | ⟨d, rfl⟩ := hlow.cases
  · rw [lowBound, highBound, numericBounds, hx.decimal]
    obtain ⟨q, y, hy⟩ | ⟨e, rfl⟩ := hhigh.cases
    · rw [hy.decimal]
      exact ⟨hx.isNaN, hy.isNaN, exact_le_of_compareLoose hx hy h⟩
    · -- infinity stands for an upper bound that is a date
      exact ⟨hx.isNaN, isNaN_infinite,
        (le_iff_exact hx.isNaN isNaN_infinite).1 (le_infinite hx.isNaN)⟩
  · cases hdate

theorem proper_of_accepts {code : ModifierCode} {args : List Argument} {m : Modifier}
    (h : Accepts code args m) : m.Proper := by
  cases h with
  | max hlimit | min hlimit => exact Value.isFinite_of_readFinite? hlimit
  | roundUp hdigits | roundDown hdigits =>
    cases hdigits with
    | absent => exact Nat.zero_le 15
    | given _ hle => exact hle
  | between hlow hhigh h =>
    exact inRange_of_bounds (Value.isBound_of_boundForm hlow) (Value.isBound_of_boundForm hhigh) h
  | upper | lower | ignoreCase | email | required | oneOf | inTable => trivial

/-- **The modifiers of a compiled bracket are proper**, in whichever rule it stands. -/
theorem proper_of_compile {config : Config} {text : String} {r : Rule} {b : Bracket} {m : Modifier}
    (h : Rule.compile config text = .ok r) (hb : b ∈ r.leaves) (hm : m ∈ b.modifiers) :
    m.Proper := by
  obtain ⟨code, args, haccepts⟩ := (built_of_compile h hb).accepted m hm
  exact proper_of_accepts haccepts

end Modifier

/-! ## Runs of texts -/

namespace Rule

variable {config : Config} {text : String} {v : Value}

/-- The first bracket of a text. -/
def firstBracket? (config : Config) (text : String) : Option Bracket :=
  (compile config text).toOption.bind (·.leaves.head?)

theorem exists_of_firstBracket? {b : Bracket} (h : firstBracket? config text = some b) :
    ∃ r, compile config text = .ok r ∧ b ∈ r.leaves := by
  obtain ⟨r, hr, hb⟩ := Option.bind_eq_some_iff.1 h
  exact ⟨r, eq_ok_of_toOption hr, List.mem_of_mem_head? hb⟩

/-- What a text makes of a value. -/
def evaluated? (config : Config) (text : String) (v : Value) : Option Evaluation :=
  (compile config text).toOption.bind fun r => (r.evaluate {} v).toOption

theorem exists_of_evaluated? {o : Evaluation} (h : evaluated? config text v = some o) :
    ∃ r, compile config text = .ok r ∧ r.evaluate {} v = .ok o := by
  obtain ⟨r, hr, ho⟩ := Option.bind_eq_some_iff.1 h
  exact ⟨r, eq_ok_of_toOption hr, eq_ok_of_toOption ho⟩

end Rule

end Rulebook
