import Rulebook.Proofs.Action.Source
import Rulebook.Proofs.Run.Builtin
import Rulebook.Proofs.Run.Nested

/-!
# Parameters of actions that were read

Reading counts the parameters of an action and finds actions at some of their places; the scripts of
the engine ask for parameters by place and do not look first.

**Main result** `parameters_of_parse`: wherever an action stands in an instruction that was read, no
run of it misses a parameter or computes a date for another kind, and what EACH, IFTTT and SWITCH
run as branches are actions.
-/

namespace Rulebook

/-- The error says that a handler was used with parameters, or for a kind, that it is not made
for. -/
def RunError.IsMisuse : RunError → Prop
  | .failed _ fault => "missing parameter".toList <+: fault.message.toList ∨
      fault.message = "not a calendar action"
  | _ => False

theorem head?_toList_append {s t : String} {c : Char} (h : s.toList.head? = some c) :
    (s ++ t).toList.head? = some c := by
  rw [String.toList_append, List.head?_append, h]
  rfl

/-- Such messages begin with one of two letters. -/
theorem RunError.not_isMisuse_of_head {kind : ActionKind} {fault : ActionFault} {c : Char}
    (hhead : fault.message.toList.head? = some c) (hm : c ≠ 'm') (hn : c ≠ 'n') :
    ¬(RunError.failed kind fault).IsMisuse := by
  rintro (⟨rest, hrest⟩ | hmessage)
  · rw [← hrest] at hhead
    exact hm (Option.some.inj hhead).symm
  · rw [hmessage] at hhead
    exact hn (Option.some.inj hhead).symm

/-! ## What scripts run -/

/-- The places of the parameters that a script runs from a state, in order. -/
def Script.ran {α : Type} (kind : ActionKind) (params : List ParamRun) :
    Script α → RunState → List Nat
  | .done _, _ => []
  | .raise _, _ => []
  | .target next, s => (next s.target).ran kind params s
  | .setTarget v next, s => next.ran kind params { s with target := v }
  | .halt next, s => next.ran kind params { s with halted := true }
  | .value i next, s =>
    let answer := outcome (ParamRun.at kind params i).value s
    (next answer.1).ran kind params answer.2
  | .run i next, s =>
    let answer := outcome (ParamRun.at kind params i).run s
    i :: (next answer.1).ran kind params answer.2
  | .runWith i v next, s =>
    let answer := outcome (RunM.withTarget v (ParamRun.at kind params i).run) s
    i :: (next answer.1).ran kind params answer.2

theorem Script.Within.runs_of_mem_ran {α : Type} {R : Rights} {kind : ActionKind}
    {params : List ParamRun} {script : Script α} (h : script.Within R) (hany : ∀ e, R.raises e)
    {s : RunState} {place : Nat} (hplace : place ∈ script.ran kind params s) : R.runs place := by
  have hanswers {β : Type} (r : Except RunError β) : AnswersIn R.raises r := fun e _ => hany e
  induction script generalizing s with
  | done | raise => cases hplace
  | target next ih => exact ih s.target (h s.target) hplace
  | setTarget v next ih => exact ih h.2 hplace
  | halt next ih => exact ih h.2 hplace
  | value i next ih => exact ih _ (h.2 _ (hanswers _)) hplace
  | run i next ih | runWith i v next ih =>
    rcases List.mem_cons.1 hplace with rfl | hplace
    · exact h.1
    · exact ih _ (h.2 _ (hanswers _)) hplace

namespace Action

/-- The places of the parameters that an action runs from a state. -/
def ran (en : Engine) (a : Action) (depth : Nat) (s : RunState) : List Nat :=
  if en.maxDepth < depth then []
  else match en.registry.handler? a.kind with
    | none => []
    | some h => (h.script ⟨a, en.today, en.evaluator.config⟩).ran a.kind
      (runParams en a.params (depth + 1)) s

/-- What the action runs at the place is a branch: for EACH and SWITCH all that they run, for IFTTT
all but its condition. -/
def IsBranch (a : Action) (place : Nat) : Prop :=
  a.kind = .each ∨ a.kind = .switch ∨ a.kind = .ifttt ∧ place ≠ 0

/-! ## What was read -/

/-- An action has as many parameters as its kind takes, and actions where it must have them. -/
structure Proper (a : Action) : Prop where
  least : a.kind.least ≤ a.params.length
  places : ∀ place ∈ a.kind.actionPlaces a.params.length, ∃ m, a.params[place]? = some (.action m)

theorem exists_action_of_misplaced? {kind : ActionKind} {ps : List Param}
    (h : misplaced? kind ps = none) {place : Nat} (hplace : place ∈ kind.actionPlaces ps.length) :
    ∃ m, ps[place]? = some (.action m) := by
  have hfound := List.find?_eq_none.1 h place hplace
  cases hp : ps[place]? with
  | none => simp [hp] at hfound
  | some p =>
    cases p with
    | action m => exact ⟨m, rfl⟩
    | literal | reference | rule => simp [hp, isAction] at hfound

variable {config : Config} {a b : Action}

theorem proper_of_read {levels position : Nat} {cs : List Char}
    (h : read config levels cs position = .ok a) (hb : Part b a) : b.Proper := by
  obtain ⟨levels', cs', position', -, -, hread⟩ := exists_read_of_part h hb
  cases levels' with
  | zero =>
    rw [read] at hread
    cases hread
  | succ levels' =>
    obtain ⟨start, hbody⟩ := exists_readBody hread
    obtain ⟨-, hcount, hplaces, -⟩ := readBody_ok hbody
    rw [ActionKind.admits, Bool.and_eq_true, decide_eq_true_eq] at hcount
    exact ⟨hcount.1, fun _ => exists_action_of_misplaced? hplaces⟩

/-- Every action in an instruction that was read is proper, at any depth. -/
theorem proper_of_parse {text : String} {i : Instruction}
    (h : Instruction.parse config text = .ok i) (ha : a ∈ i.actions) (hb : Part b a) :
    b.Proper := by
  obtain ⟨c, cs, position, -, hread, hc⟩ := Instruction.parse_ok h a ha
  cases hb with
  | self =>
    obtain ⟨hleast, hplaces⟩ := proper_of_read hread .self
    rcases hc with rfl | rfl <;> exact ⟨hleast, hplaces⟩
  | param hm hb =>
    rcases hc with rfl | rfl <;> exact proper_of_read hread (.param hm hb)

/-! ## Its runs -/

/-- The parameters that the engine's script of a proper action asks for are there. -/
theorem Proper.lt_length (h : a.Proper) {E : Effects} {place : Nat}
    (hplace : (Builtin.rights E a.kind a.params.length).values place ∨
      (Builtin.rights E a.kind a.params.length).runs place) : place < a.params.length := by
  rcases hplace with hvalues | hruns
  · exact hvalues h.least
  · rcases hruns h.least with ⟨rfl, hkind⟩ | hplace
    · refine Nat.lt_of_lt_of_le ?_ h.least
      rcases hkind with hkind | hkind <;> rw [hkind] <;> decide
    · obtain ⟨m, hm⟩ := h.places place hplace
      exact (List.getElem?_eq_some_iff.1 hm).1

/-- Handlers are made for what they are used with. -/
theorem contained_proper {en : Engine} (hreg : en.registry = .builtin) :
    Contained en ⟨True, True, fun e => ¬e.IsMisuse⟩ fun a _ => ∀ b, Part b a → b.Proper where
  tooDeep _ _ _ _ := id
  noHandler _ _ _ _ := id
  script a depth handler ha hhandler := by
    have hquote : "'".toList.head? = some '\'' := by simp
    have hunknown : "unknown conversion '".toList.head? = some 'u' := by simp
    have hadmits : Builtin.Admits ⟨True, True, fun e => ¬e.IsMisuse⟩ a.kind
        ⟨a, en.today, en.evaluator.config⟩ :=
      { sets := fun _ => trivial
        halts := fun _ => trivial
        invalidTarget := fun _ _ => id
        notANumber := fun _ _ =>
          RunError.not_isMisuse_of_head (head?_toList_append (head?_toList_append hquote))
            (by decide) (by decide)
        notADate := fun _ _ =>
          RunError.not_isMisuse_of_head (head?_toList_append (head?_toList_append hquote))
            (by decide) (by decide)
        unknownConversion := fun _ _ =>
          RunError.not_isMisuse_of_head (head?_toList_append (head?_toList_append hunknown))
            (by decide) (by decide)
        notACalendarAction := .inl rfl }
    have hscript := Registry.script?_of_builtin hreg hhandler
    exact ⟨_, rfl, Builtin.within_script hadmits hscript, fun place hplace =>
      .inl ((ha a .self).lt_length hplace)⟩
  rule _ _ _ _ _ _ _ _ := id
  nested _ _ _ ha hm b hb := ha b (.param hm hb)

/-- The branches that a proper action runs are actions. -/
theorem Proper.exists_action_of_isBranch (h : a.Proper) {en : Engine}
    (hreg : en.registry = .builtin) {depth place : Nat} {s : RunState}
    (hran : place ∈ a.ran en depth s) (hbranch : a.IsBranch place) :
    ∃ m, a.params[place]? = some (.action m) := by
  rw [ran] at hran
  split at hran
  · cases hran
  split at hran
  · cases hran
  next handler hhandler =>
  have hadmits : Builtin.Admits ⟨True, True, fun _ => True⟩ a.kind
      ⟨a, en.today, en.evaluator.config⟩ :=
    Builtin.admitsFaults_true.admits (fun _ => trivial) fun _ => trivial
  have hwithin := Builtin.within_script hadmits (Registry.script?_of_builtin hreg hhandler)
  have hruns := hwithin.runs_of_mem_ran (fun _ => trivial) hran
  rcases hruns h.least with ⟨rfl, hkind⟩ | hplace
  · -- CHECK and the condition of IFTTT run no branch
    rcases hbranch with hkind' | hkind' | ⟨-, hplace⟩
    · rcases hkind with hkind | hkind <;> cases hkind.symm.trans hkind'
    · rcases hkind with hkind | hkind <;> cases hkind.symm.trans hkind'
    · exact absurd rfl hplace
  · exact h.places place hplace

end Action

/-- **What was read never misuses its parameters**: from every state, and at every depth of nesting,
an action in an instruction, or among the parameters of one, raises no error about a missing
parameter or about its kind, and the branches it runs are actions. -/
theorem parameters_of_parse {config : Config} {text : String} {i : Instruction}
    (h : Instruction.parse config text = .ok i) {en : Engine} (hreg : en.registry = .builtin)
    {a b : Action} (ha : a ∈ i.actions) (hb : Action.Part b a) (depth : Nat) (s : RunState) :
    (∀ e, (outcome (b.run en depth) s).1 = .error e → ¬e.IsMisuse) ∧
      ∀ place ∈ b.ran en depth s, b.IsBranch place → ∃ m, b.params[place]? = some (.action m) := by
  have hproper (c : Action) (hc : Action.Part c b) : c.Proper :=
    Action.proper_of_parse h ha (hc.trans hb)
  refine ⟨fun e he => ?_, fun place hran hbranch => ?_⟩
  · exact ((Action.contained_proper hreg).run_within hproper s).raised e he
  · exact (hproper b .self).exists_action_of_isBranch hreg hran hbranch

/-- SWITCH runs its default, which fails for a reason of its own. -/
theorem parameters_of_parse_switch :
    let en : Engine := { registry := .builtin, today := .earliest }
    let s : RunState := { target := .text "b" }
    let e : RunError := .failed .len (.notANumber "x")
    ∃ a, Instruction.parse {} "SWITCH('a', SET(1), len('x'))" = .ok (.action a) ∧
      (outcome (a.run en 0) s).1 = .error e ∧ ¬e.IsMisuse ∧
      a.ran en 0 s = [2] ∧ ∃ m, a.params[2]? = some (.action m) := by
  intro en s e
  obtain ⟨a, ha, hkind, hresult, hran⟩ := Instruction.exists_of_isActionWith
    (P := fun a => a.kind = .switch ∧
      (outcome (a.run en 0) s).1.map Result.kind = .error e ∧ a.ran en 0 s = [2])
    (x := Instruction.parse {} "SWITCH('a', SET(1), len('x'))") (by decide +kernel)
  have hreg : en.registry = .builtin := rfl
  obtain ⟨hraised, hbranches⟩ :=
    parameters_of_parse ha hreg (List.mem_singleton.2 rfl) Action.Part.self 0 s
  have he : (outcome (a.run en 0) s).1 = .error e := map_error_iff.1 hresult
  have hplace : 2 ∈ a.ran en 0 s := hran ▸ List.mem_singleton.2 rfl
  exact ⟨a, ha, he, hraised e he, hran, hbranches 2 hplace (.inr (.inl hkind))⟩

end Rulebook
