import Rulebook.Proofs.Action.Again
import Rulebook.Proofs.Action.Spelling

/-!
# The source kept in an action

Every action nested in an instruction was read from a part of the text (`exists_read_of_part`), and
its source is that part without the white space around it.  Read as an instruction, the source is
the action alone (`parse_of_read`):

    parse config text = .ok i,  b a part of an action of i
      →  parse config b.source = .ok (.action { b with isTest := false })
-/

namespace Rulebook

open Text

namespace Action

/-- The first action is the second, or a part of an action among its parameters. -/
inductive Part : Action → Action → Prop
  | self {a} : Part a a
  | param {b m a} : .action m ∈ a.params → Part b m → Part b a

theorem Part.trans {a b c : Action} (hc : Part c b) (hb : Part b a) : Part c a := by
  induction hb with
  | self => exact hc
  | param hm _ ih => exact .param hm ih

variable {config : Config} {nested : Nested} {levels position : Nat} {cs : List Char}
  {a b : Action}

/-- What is nested in an action was read from a part of its text. -/
theorem exists_read_of_part (h : read config levels cs position = .ok a) (hb : Part b a) :
    ∃ levels' cs' position', levels' ≤ levels ∧ cs' <:+: cs ∧
      read config levels' cs' position' = .ok b := by
  induction hb generalizing levels cs position with
  | self => exact ⟨levels, cs, position, Nat.le_refl _, List.infix_rfl, h⟩
  | @param m a hm _ ih =>
    cases levels with
    | zero =>
      rw [read] at h
      cases h
    | succ levels =>
      obtain ⟨start, hbody⟩ := exists_readBody h
      obtain ⟨hparams, -⟩ := readBody_ok hbody
      obtain ⟨cs₁, position₁, hcs₁, hparam⟩ := hparams _ hm
      obtain ⟨_, hm'⟩ | ⟨_, _, hm'⟩ | ⟨_, _, -, hm'⟩ | ⟨m', hread, hm'⟩ := readParam_ok hparam
      · cases hm'
      · cases hm'
      · cases hm'
      · cases hm'
        obtain ⟨levels', cs', position', hle, hcs', hread'⟩ := ih hread
        exact ⟨levels', cs', position', Nat.le_succ_of_le hle,
          hcs'.trans (hcs₁.trans (infix_trim cs)), hread'⟩

theorem ne_nil_of_readBody (h : readBody config nested cs position = .ok a) : cs ≠ [] := by
  rintro rfl
  exact (readBody_ok_iff.1 h).1 rfl

/-- The source of an action is the text it was read from, and as an instruction it is that
action. -/
theorem parse_of_read (h : read config levels cs position = .ok a)
    (hlevels : levels ≤ config.maxDepth + 1) :
    a.source = String.ofList (trim cs) ∧ a.isTest = false ∧
      Instruction.parse config a.source = .ok (.action a) := by
  have hheight : a.height < config.maxDepth + 1 := Nat.lt_of_lt_of_le (height_lt_of_read h) hlevels
  have hread : read config (config.maxDepth + 1) (trim cs) 0 = .ok a :=
    read_again h hheight (trim_trim cs)
  have hne : trim cs ≠ [] := by
    obtain ⟨start, hbody⟩ := exists_readBody hread
    exact trim_trim cs ▸ ne_nil_of_readBody hbody
  rw [read_of_trim (trim_trim cs) hne] at hread
  obtain ⟨-, -, -, htest, hsource⟩ := readBody_ok hread
  refine ⟨hsource, htest, ?_⟩
  rw [hsource]
  exact Instruction.parse_of_trim (trim_trim cs) hne (pieces_of_readBody hread 0) hread

end Action

/-- Every action in an instruction, at any depth, keeps a part of the text without white space
around it, and that source is the action alone, which is then no test. -/
theorem parse_source (config : Config) (text : String) (i : Instruction)
    (h : Instruction.parse config text = .ok i) (a : Action) (ha : a ∈ i.actions) (b : Action)
    (hb : Action.Part b a) :
    b.source.toList <:+: text.toList ∧ trim b.source.toList = b.source.toList ∧
      Instruction.parse config b.source = .ok (.action { b with isTest := false }) := by
  obtain ⟨c, cs, position, hinfix, hread, hc⟩ := Instruction.parse_ok h a ha
  -- but for its mark as a test, the action is what was read
  obtain ⟨d, hd, hbd⟩ : ∃ d, Action.Part d c ∧
      ({ b with isTest := d.isTest } : Action) = d := by
    cases hb with
    | self =>
      refine ⟨c, .self, ?_⟩
      cases c
      rcases hc with rfl | rfl <;> rfl
    | param hm hb =>
      refine ⟨b, .param ?_ hb, by cases b; rfl⟩
      rcases hc with rfl | rfl <;> exact hm
  obtain ⟨levels, cs', position', hle, hcs', hread'⟩ := Action.exists_read_of_part hread hd
  obtain ⟨hsource, htest, hparse⟩ := Action.parse_of_read hread' hle
  rw [htest] at hbd
  have hbsource : b.source = String.ofList (trim cs') := by
    rw [← hsource, ← hbd]
  rw [hbd, hbsource, String.toList_ofList, ← hsource]
  exact ⟨((infix_trim cs').trans hcs').trans hinfix, trim_trim cs', hparse⟩

theorem parse_source_of_parameter : ∃ i a b,
    Instruction.parse {} " EACH( ! SET('é,y', TODAY ) ) => END" = .ok i ∧ a ∈ i.actions ∧
      Action.Part b a ∧ b.source = "! SET('é,y', TODAY )" ∧
      Instruction.parse {} "! SET('é,y', TODAY )" = .ok (.action { b with isTest := false }) := by
  have hfirst : (((Instruction.parse {} " EACH( ! SET('é,y', TODAY ) ) => END").toOption.bind
      fun i => i.actions.head?).bind fun a => a.params.head?).map
        (fun p => (Action.isAction p, p.text)) = some (true, "! SET('é,y', TODAY )") := by
    decide +kernel
  obtain ⟨p, hp, htext⟩ := Option.map_eq_some_iff.1 hfirst
  obtain ⟨a, ha, hp⟩ := Option.bind_eq_some_iff.1 hp
  obtain ⟨i, hi, ha⟩ := Option.bind_eq_some_iff.1 ha
  obtain ⟨hisAction, hsource⟩ := Prod.mk.inj htext
  cases p with
  | action b =>
    have hpart : Action.Part b a := .param (List.mem_of_head? hp) .self
    obtain ⟨-, -, hparse⟩ :=
      parse_source {} _ i (eq_ok_of_toOption hi) a (List.mem_of_head? ha) b hpart
    refine ⟨i, a, b, eq_ok_of_toOption hi, List.mem_of_head? ha, hpart, hsource, ?_⟩
    rw [← show b.source = _ from hsource]
    exact hparse
  | literal => cases hisAction
  | reference => cases hisAction
  | rule => cases hisAction

end Rulebook
