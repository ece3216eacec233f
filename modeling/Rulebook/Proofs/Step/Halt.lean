import Rulebook.Proofs.Step.Course
import Rulebook.Run.Builtin

/-!
# Halted runs of steps

**Main results**

* `Step.run_stops`: after an instruction that leaves the run halted, its step and the steps around
  it are left, and nothing else happens.
* `Step.run_starts`: an action that is started while the run is halted is a branch, whose condition
  halted the run, or belongs to the first instruction of the root in a run that began halted.  Both
  happen (`Step.exists_started_halted`).
-/

namespace Rulebook

/-! ## What happens after -/

namespace Moment

/-- An instruction that leaves the run halted. -/
def Halts : Moment → Prop
  | took _ x => x.after.halted = true
  | entered _ | left _ _ => False

/-- If `m` halts, then `m'` leaves the step of `m` or one around it. -/
def Stops (m m' : Moment) : Prop :=
  m.Halts → ∃ place entry, m' = .left place entry ∧ place <+: m.place

end Moment

namespace Course

theorem mem_timeline {m : Moment} {place : List Nat} {above : List String} {s : Step}
    {turns : List Turn} {handed : RunState} {cs : List Course} {x : Except RunError Result} :
    m ∈ timeline place above ⟨s, turns, handed, cs, x⟩ ↔ m = .entered place ∨
      (∃ turn ∈ turns, m = .took place turn) ∨ m ∈ timelines place 0 (above ++ [s.name]) cs ∨
      m = .left place ⟨Text.join "/" (above ++ [s.name]), recorded ⟨s, turns, handed, cs, x⟩⟩ := by
  rw [timeline, List.mem_cons, List.mem_append, List.mem_append, List.mem_map, List.mem_singleton]
  simp only [eq_comm]

mutual

/-- All that happens in a step happens there or below. -/
theorem prefix_place {m : Moment} {place : List Nat} {above : List String} :
    {c : Course} → m ∈ c.timeline place above → place <+: m.place
  | ⟨_, _, _, _, _⟩, h => by
    rcases mem_timeline.1 h with rfl | ⟨x, -, rfl⟩ | h | rfl
    · exact List.prefix_rfl
    · exact List.prefix_rfl
    · exact prefix_places h
    · exact List.prefix_rfl

theorem prefix_places {m : Moment} {place : List Nat} {number : Nat} {above : List String} :
    {cs : List Course} → m ∈ timelines place number above cs → place <+: m.place
  | c :: cs, h => by
    rw [timelines, List.mem_append] at h
    rcases h with h | h
    · exact (List.prefix_append ..).trans (prefix_place h)
    · exact prefix_places h

end

end Course

namespace Step

variable {en : Engine}

/-- Nothing is entered from a state that is halted. -/
theorem WentAll.eq_nil {depth : Nat} {t u : RunState} {cs : List Course}
    (h : WentAll en depth t cs u) (hhalted : t.halted = true) : cs = [] ∧ u = t := by
  cases h with
  | nil => exact ⟨rfl, rfl⟩
  | cons hgoing => rw [hgoing] at hhalted; cases hhalted

mutual

theorem Went.halted {depth : Nat} {t u : RunState} {m : Moment} {place : List Nat}
    {above : List String} : {c : Course} → Went en depth t c u → m ∈ c.timeline place above →
      m.Halts → u.halted = true
  | _, .of _ hhanded hcs, h, hm => by
    rcases Course.mem_timeline.1 h with rfl | ⟨x, hx, rfl⟩ | h | rfl
    · cases hm
    · have hhalted := Instruction.halted_stateAfter hx hm
      rw [← hhanded] at hhalted
      rw [(hcs.eq_nil hhalted).2, hhalted]
    · exact hcs.halted h hm
    · cases hm

theorem WentAll.halted {depth : Nat} {t u : RunState} {m : Moment} {place : List Nat}
    {number : Nat} {above : List String} : {cs : List Course} → WentAll en depth t cs u →
      m ∈ Course.timelines place number above cs → m.Halts → u.halted = true
  | _, .cons _ hc hcs, h, hm => by
    rw [Course.timelines, List.mem_append] at h
    rcases h with h | h
    · have hhalted := hc.halted h hm
      rw [(hcs.eq_nil hhalted).2, hhalted]
    · exact hcs.halted h hm

end

mutual

theorem Went.stops {depth : Nat} {t u : RunState} (place : List Nat) (above : List String) :
    {c : Course} → Went en depth t c u → (c.timeline place above).Pairwise Moment.Stops
  | _, .of _ hhanded hcs => by
    have hinner (names : List String) := hcs.stops place 0 names
    rw [Course.timeline]
    refine .cons (fun _ _ h => h.elim) (List.pairwise_append.2 ⟨?_, ?_, ?_⟩)
    · -- a turn that halts is the last
      refine List.pairwise_map.2 (Instruction.turns_pairwise.imp fun {x _} hgoing hhalts => ?_)
      rw [Moment.Halts, hgoing] at hhalts
      cases hhalts
    · refine List.pairwise_append.2 ⟨hinner _, List.pairwise_singleton .., fun m hm m' hm' _ => ?_⟩
      exact ⟨place, _, List.mem_singleton.1 hm', Course.prefix_places hm⟩
    · -- and no child is entered after it
      intro m hm m' hm' hhalts
      obtain ⟨x, hx, rfl⟩ := List.mem_map.1 hm
      have hhalted := Instruction.halted_stateAfter hx hhalts
      rw [← hhanded] at hhalted
      rw [(hcs.eq_nil hhalted).1] at hm'
      exact ⟨place, _, List.mem_singleton.1 hm', List.prefix_rfl⟩

theorem WentAll.stops {depth : Nat} {t u : RunState} (place : List Nat) (number : Nat)
    (above : List String) : {cs : List Course} → WentAll en depth t cs u →
      (Course.timelines place number above cs).Pairwise Moment.Stops
  | _, .nil => .nil
  | _, .cons _ hc hcs => by
    rw [Course.timelines, List.pairwise_append]
    refine ⟨hc.stops _ _, hcs.stops _ _ _, fun m hm m' hm' hhalts => ?_⟩
    rw [(hcs.eq_nil (hc.halted hm hhalts)).1] at hm'
    cases hm'

end

/-- **After an instruction that leaves the run halted** no instruction is run and no step entered;
its step and those around it are left. -/
theorem run_stops (en : Engine) (s : Step) (j : Journal) : ∃ c, Goes en s j c ∧
    ∀ before place x after, c.timeline [] j.path = before ++ .took place x :: after →
      x.after.halted = true → (outcome (s.run en) j).2.state.halted = true ∧
        ∀ m ∈ after, ∃ above entry, m = .left above entry ∧ above <+: place := by
  obtain ⟨c, hc⟩ := exists_goes en s j
  refine ⟨c, hc, fun before place x after htimeline hhalts => ?_⟩
  have hmem : .took place x ∈ c.timeline [] j.path := by
    rw [htimeline]
    exact List.mem_append_right _ List.mem_cons_self
  have hstops := hc.went.stops [] j.path
  rw [htimeline, List.pairwise_append, List.pairwise_cons] at hstops
  exact ⟨hc.went.halted hmem hhalts, fun m hm => hstops.2.1.1 m hm hhalts⟩

/-! ## What is started -/

end Step

namespace Instruction

/-- The branch that a test takes after its condition. -/
def branch? (onComplete : Action) (onFail : Option Action) (r : Result) : Option Action :=
  match r.kind, onFail with
  | .complete, _ => some onComplete
  | .fail, some a => some a
  | _, _ => none

end Instruction

/-- The action that an instruction begins with: itself, or its condition. -/
def Instruction.first : Instruction → Action
  | .action a | .test a _ _ => a

/-- An action that an instruction starts. -/
structure Start where
  action : Action
  isBranch : Bool
  state : RunState

namespace Instruction

/-- What an instruction starts from a state: its action or condition, and then the branch. -/
def starts (en : Engine) (t : RunState) : Instruction → List Start
  | .action a => [⟨a, false, t⟩]
  | .test c onComplete onFail =>
    ⟨c, false, t⟩ :: match outcome (c.run en 0) t with
      | (.ok r, u) => ((branch? onComplete onFail r).map fun a => ⟨a, true, u⟩).toList
      | (.error _, _) => []

/-- A branch is started from where the condition left the run, and all else from the beginning. -/
theorem state_of_mem_starts {en : Engine} {t : RunState} {i : Instruction} {b : Start}
    (h : b ∈ i.starts en t) :
    b.state = if b.isBranch then (outcome (i.first.run en 0) t).2 else t := by
  cases i with
  | action a =>
    cases List.mem_singleton.1 h
    rfl
  | test c onComplete onFail =>
    rcases List.mem_cons.1 h with rfl | h
    · rfl
    rw [first]
    generalize outcome (c.run en 0) t = x at h ⊢
    obtain ⟨e | r, u⟩ := x
    · cases h
    · obtain ⟨a, -, rfl⟩ := Option.map_eq_some_iff.1 (Option.mem_toList.1 h)
      rfl

theorem run_test (en : Engine) (c onComplete : Action) (onFail : Option Action) :
    (test c onComplete onFail).run en = (do
      let r ← c.run en 0
      match branch? onComplete onFail r with
      | some a => a.run en 0
      | none => return r) := by
  rw [run]
  congr 1
  funext r
  unfold branch?
  cases r.kind <;> cases onFail <;> rfl

/-- An instruction comes to what the last action comes to that it starts. -/
theorem exists_last_start (en : Engine) (t : RunState) (i : Instruction) :
    ∃ x, (i.starts en t).getLast? = some x ∧
      outcome (i.run en) t = outcome (x.action.run en 0) x.state := by
  cases i with
  | action a => exact ⟨_, rfl, rfl⟩
  | test c onComplete onFail =>
    rw [starts, run_test, outcome_bind]
    rcases hc : outcome (c.run en 0) t with ⟨e | r, u⟩
    · exact ⟨_, rfl, hc.symm⟩
    · rw [continued]
      dsimp only
      cases branch? onComplete onFail r with
      | none => exact ⟨_, rfl, hc.symm⟩
      | some a => exact ⟨_, rfl, rfl⟩

end Instruction

namespace Step

mutual

theorem Went.turn_eq {en : Engine} {depth : Nat} {t u : RunState} {x : Turn}
    {place place' : List Nat} {above : List String} : {c : Course} → Went en depth t c u →
      .took place' x ∈ c.timeline place above → x = Turn.of en x.before x.instruction
  | _, .of _ _ hcs, h => by
    rcases Course.mem_timeline.1 h with h | ⟨y, hy, h⟩ | h | h
    · cases h
    · cases h
      exact Instruction.eq_of_mem_turns hy
    · exact hcs.turn_eq h
    · cases h

theorem WentAll.turn_eq {en : Engine} {depth : Nat} {t u : RunState} {x : Turn}
    {place place' : List Nat} {number : Nat} {above : List String} : {cs : List Course} →
      WentAll en depth t cs u → .took place' x ∈ Course.timelines place number above cs →
      x = Turn.of en x.before x.instruction
  | _, .cons _ hc hcs, h => by
    rw [Course.timelines, List.mem_append] at h
    exact h.elim hc.turn_eq hcs.turn_eq

end

mutual

/-- A turn that begins halted is the first of a step that began so. -/
theorem Went.halted_before {en : Engine} {depth : Nat} {t u : RunState} {x : Turn}
    {place place' : List Nat} {above : List String} : {c : Course} → Went en depth t c u →
      .took place' x ∈ c.timeline place above → x.before.halted = true →
      t.halted = true ∧ place' = place ∧ c.turns.head? = some x
  | _, .of _ _ hcs, h, hx => by
    rcases Course.mem_timeline.1 h with h | ⟨y, hy, h⟩ | h | h
    · cases h
    · cases h
      obtain ⟨hbegun, hfirst⟩ := Instruction.halted_before hy hx
      exact ⟨hbegun, rfl, hfirst⟩
    · rw [hcs.not_halted_before h] at hx
      cases hx
    · cases h

theorem WentAll.not_halted_before {en : Engine} {depth : Nat} {t u : RunState} {x : Turn}
    {place place' : List Nat} {number : Nat} {above : List String} : {cs : List Course} →
      WentAll en depth t cs u → .took place' x ∈ Course.timelines place number above cs →
      x.before.halted = false
  | _, .cons hgoing hc hcs, h => by
    rw [Course.timelines, List.mem_append] at h
    rcases h with h | h
    · rw [Bool.eq_false_iff]
      intro hx
      rw [(hc.halted_before h hx).1] at hgoing
      cases hgoing
    · exact hcs.not_halted_before h

end

/-- The first turn in a step begins where the step did. -/
theorem Went.before_of_head {en : Engine} {depth : Nat} {t u : RunState} {c : Course} {x : Turn}
    (h : Went en depth t c u) (hx : c.turns.head? = some x) : x.before = t := by
  cases h with
  | @of _ _ s _ _ _ _ _ _ _ =>
    rcases hinstructions : s.instructions with _ | ⟨i, is⟩
    · rw [hinstructions] at hx
      cases hx
    · rw [hinstructions, Instruction.turns] at hx
      cases hx
      rfl

/-- **What is started while the run is halted**: a branch when its condition left the run halted,
and other actions only at the beginning of a run that begins halted.  What a turn comes to is what
the last action comes to that it starts. -/
theorem run_starts (en : Engine) (s : Step) (j : Journal) : ∃ c, Goes en s j c ∧
    ∀ place x, .took place x ∈ c.timeline [] j.path →
      (∃ last, (x.instruction.starts en x.before).getLast? = some last ∧
        outcome (last.action.run en 0) last.state = (x.result, x.after)) ∧
      ∀ b ∈ x.instruction.starts en x.before,
        (b.state.halted = true ↔
          if b.isBranch then (outcome (x.instruction.first.run en 0) x.before).2.halted = true
          else j.state.halted = true ∧ place = [] ∧ c.turns.head? = some x) := by
  obtain ⟨c, hc⟩ := exists_goes en s j
  refine ⟨c, hc, fun place x hx => ⟨?_, fun b hb => ?_⟩⟩
  · obtain ⟨last, hlast, hcomes⟩ := x.instruction.exists_last_start en x.before
    refine ⟨last, hlast, ?_⟩
    rw [← hcomes, hc.went.turn_eq hx]
    rfl
  rw [Instruction.state_of_mem_starts hb]
  cases b.isBranch with
  | true => exact Iff.rfl
  | false =>
    constructor
    · exact hc.went.halted_before hx
    · rintro ⟨hhalted, -, hfirst⟩
      rw [← hc.went.before_of_head hfirst] at hhalted
      exact hhalted

/-- A run starts an action while it is halted, a branch or another. -/
def StartsHalted (en : Engine) (s : Step) (j : Journal) (isBranch : Bool) : Prop :=
  ∃ c, Goes en s j c ∧ ∃ place x, .took place x ∈ c.timeline [] j.path ∧
    ∃ b ∈ x.instruction.starts en x.before, b.isBranch = isBranch ∧ b.state.halted = true

/-- **Both happen**: with `END=>SET(1)` the branch is started, and with `SET(1)` in a run that is
halted already the action. -/
theorem exists_started_halted :
    let en : Engine := { registry := .builtin, today := .earliest }
    let set : Action := .of .set [.literal (.integer 1)]
    (∃ (s : Step) (j : Journal), s.instructions = [.test (.of .stop []) set none] ∧
      j.state.halted = false ∧ StartsHalted en s j true ∧
      (outcome (s.run en) j).2.state.target = .integer 1) ∧
    (∃ (s : Step) (j : Journal), s.instructions = [.action set] ∧
      j.state.halted = true ∧ StartsHalted en s j false ∧
      (outcome (s.run en) j).2.state.target = .integer 1) := by
  intro en set
  constructor
  · let s : Step := { name := "step", instructions := [.test (.of .stop []) set none] }
    let j : Journal := { state := { target := .null } }
    have hwent : Went en 0 j.state ⟨s, Instruction.turns en j.state s.instructions,
        { target := .integer 1, halted := true }, [], .ok (.completeWith (.integer 1))⟩
        { target := .integer 1, halted := true } := .of (.childless rfl rfl) rfl .nil
    have hbranch : ⟨set, true, { target := .null, halted := true }⟩ ∈
        (Instruction.test (.of .stop []) set none).starts en j.state := .tail _ (.head _)
    exact ⟨s, j, rfl, rfl, ⟨_, hwent.goes, [], _, .tail _ (.head _), _, hbranch, rfl, rfl⟩, rfl⟩
  · let s : Step := { name := "step", instructions := [.action set] }
    let j : Journal := { state := { target := .null, halted := true } }
    have hwent : Went en 0 j.state ⟨s, Instruction.turns en j.state s.instructions,
        { target := .integer 1, halted := true }, [], .ok (.completeWith (.integer 1))⟩
        { target := .integer 1, halted := true } := .of (.childless rfl rfl) rfl .nil
    exact ⟨s, j, rfl, rfl, ⟨_, hwent.goes, [], _, .tail _ (.head _), _, .head _, rfl, rfl⟩, rfl⟩

end Step

end Rulebook
