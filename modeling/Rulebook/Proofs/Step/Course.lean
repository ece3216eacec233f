import Rulebook.Proofs.Step.Turns
import Rulebook.Proofs.Step.Trace

/-!
# Courses of steps

A course is a visit in full, with the turns of its instructions and the states between them.  Its
timeline is all that happened, in order: steps are entered and left, and instructions run.

**Main result** `Step.exists_goes`: every run of a step tree goes as a course, and what it adds to
the trace is the entries in the timeline.
-/

namespace Rulebook

/-- A step that was entered, and all that was done in it. -/
structure Course where
  step : Step
  turns : List Turn
  /-- The state that its instructions left. -/
  handed : RunState
  /-- The courses of the children that were entered, in the order in which they ran. -/
  inner : List Course
  result : Except RunError Result

/-- Something that happens in a run.  The place of a step is the way to it from the root: the number
of each child among those that its parent ran. -/
inductive Moment where
  | entered (place : List Nat)
  | took (place : List Nat) (turn : Turn)
  /-- With what is added to the trace. -/
  | left (place : List Nat) (entry : TraceEntry)

namespace Moment

def place : Moment → List Nat
  | entered place | took place _ | left place _ => place

def entry? : Moment → Option TraceEntry
  | left _ entry => some entry
  | _ => none

end Moment

namespace Course

mutual

def visit : Course → Visit
  | ⟨step, _, _, inner, result⟩ => ⟨step, result, visits inner⟩

def visits : List Course → List Visit
  | [] => []
  | c :: cs => c.visit :: visits cs

end

/-- What the trace records of it. -/
def recorded (c : Course) : Result := c.visit.shown

mutual

/-- The course and those inside it. -/
def all : Course → List Course
  | ⟨step, turns, handed, inner, result⟩ =>
    ⟨step, turns, handed, inner, result⟩ :: allInner inner

def allInner : List Course → List Course
  | [] => []
  | c :: cs => c.all ++ allInner cs

end

mutual

/-- What happened, below the names `above`. -/
def timeline (place : List Nat) (above : List String) : Course → List Moment
  | ⟨step, turns, handed, inner, result⟩ =>
    .entered place :: (turns.map (.took place) ++
      (timelines place 0 (above ++ [step.name]) inner ++
        [.left place ⟨Text.join "/" (above ++ [step.name]),
          recorded ⟨step, turns, handed, inner, result⟩⟩]))

/-- The timelines of children, numbered from `number` on. -/
def timelines (place : List Nat) (number : Nat) (above : List String) : List Course → List Moment
  | [] => []
  | c :: cs => c.timeline (place ++ [number]) above ++ timelines place (number + 1) above cs

end

theorem visit_step (c : Course) : c.visit.step = c.step := by
  obtain ⟨step, turns, handed, inner, result⟩ := c
  rfl

theorem visit_result (c : Course) : c.visit.result = c.result := by
  obtain ⟨step, turns, handed, inner, result⟩ := c
  rfl

theorem steps_visits (cs : List Course) : (visits cs).map Visit.step = cs.map step := by
  induction cs with
  | nil => rfl
  | cons c cs ih => rw [visits, List.map_cons, visit_step, ih, List.map_cons]

theorem kinds_visits (cs : List Course) :
    Visit.kinds (visits cs) = cs.map fun c => c.recorded.kind := by
  induction cs with
  | nil => rfl
  | cons c cs ih => rw [visits, Visit.kinds_cons, ih]; rfl

theorem visits_eq_nil {cs : List Course} (h : visits cs = []) : cs = [] := by
  cases cs with
  | nil => rfl
  | cons => cases h

mutual

theorem entries_timeline (place : List Nat) (above : List String) :
    (c : Course) → (c.timeline place above).filterMap Moment.entry? = c.visit.entries above
  | ⟨step, turns, handed, inner, result⟩ => by
    have hturns : (turns.map (Moment.took place)).filterMap Moment.entry? = [] := by
      rw [List.filterMap_map]
      exact List.filterMap_eq_nil_iff.2 fun _ _ => rfl
    rw [timeline, List.filterMap_cons_none rfl, List.filterMap_append, hturns, List.nil_append,
      List.filterMap_append, entries_timelines place 0 _ inner, Visit.entries_eq]
    rfl

theorem entries_timelines (place : List Nat) (number : Nat) (above : List String) :
    (cs : List Course) →
      (timelines place number above cs).filterMap Moment.entry? = Visit.allEntries above (visits cs)
  | [] => rfl
  | c :: cs => by
    rw [timelines, List.filterMap_append, entries_timeline _ above c,
      entries_timelines place (number + 1) above cs, visits, Visit.allEntries_cons]

end

end Course

namespace Step

mutual

/-- The step of a course runs so at a depth, from a state to the state after. -/
inductive Went (en : Engine) : Nat → RunState → Course → RunState → Prop
  | of {depth t s u cs x w} : Ran en depth t s ⟨s, x, Course.visits cs⟩ w →
      u = Instruction.stateAfter t (Instruction.turns en t s.instructions) →
      WentAll en (depth + 1) u cs w →
      Went en depth t ⟨s, Instruction.turns en t s.instructions, u, cs, x⟩ w

/-- The steps of courses run one after the other, none from a state that is halted. -/
inductive WentAll (en : Engine) : Nat → RunState → List Course → RunState → Prop
  | nil {depth t} : WentAll en depth t [] t
  | cons {depth t c u cs w} : t.halted = false → Went en depth t c u → WentAll en depth u cs w →
      WentAll en depth t (c :: cs) w

end

variable {en : Engine}

theorem Went.ran {depth : Nat} {t u : RunState} {c : Course} (h : Went en depth t c u) :
    Ran en depth t c.step c.visit u := by
  cases h with
  | of hran _ _ => exact hran

mutual

/-- Every course inside one is a course of its own. -/
theorem Went.went_of_mem_all {depth : Nat} {t u : RunState} : {c : Course} →
    Went en depth t c u → ∀ {d}, d ∈ c.all → ∃ depth t u, Went en depth t d u
  | _, h@(.of _ _ hcs), d, hd => by
    rcases List.mem_cons.1 hd with rfl | hd
    · exact ⟨_, _, _, h⟩
    · exact hcs.went_of_mem_allInner hd

theorem WentAll.went_of_mem_allInner {depth : Nat} {t u : RunState} : {cs : List Course} →
    WentAll en depth t cs u → ∀ {d}, d ∈ Course.allInner cs → ∃ depth t u, Went en depth t d u
  | _, .nil, _, hd => absurd hd List.not_mem_nil
  | _, .cons _ hc hcs, _, hd => (List.mem_append.1 hd).elim hc.went_of_mem_all
      hcs.went_of_mem_allInner

end

/-! ## Every run goes as a course -/

/-- The course of a visit, when those of the visits inside it are known. -/
theorem went_of_inner {depth : Nat} {t u w : RunState} {s : Step} {x : Except RunError Result}
    {own : Except RunError Result} {vs : List Visit} (hran : Ran en depth t s ⟨s, x, vs⟩ w)
    (hown : outcome (Instruction.runAll en .noAction s.instructions) t = (own, u))
    (hinner : ∃ cs, Course.visits cs = vs ∧ WentAll en (depth + 1) u cs w) :
    ∃ c, c.visit = ⟨s, x, vs⟩ ∧ Went en depth t c w := by
  obtain ⟨cs, rfl, hcs⟩ := hinner
  rw [Instruction.outcome_runAll] at hown
  exact ⟨_, rfl, .of hran (congrArg Prod.snd hown).symm hcs⟩

mutual

theorem Ran.exists_went {depth : Nat} {t u : RunState} {s : Step} {v : Visit}
    (hran : Ran en depth t s v u) : ∃ c, c.visit = v ∧ Went en depth t c u := by
  cases hran with
  | raised hown => exact went_of_inner (.raised hown) hown ⟨[], rfl, .nil⟩
  | childless hown h => exact went_of_inner (.childless hown h) hown ⟨[], rfl, .nil⟩
  | stopped hown h h' => exact went_of_inner (.stopped hown h h') hown ⟨[], rfl, .nil⟩
  | cascaded hown h h' h'' hall =>
    exact went_of_inner (.cascaded hown h h' h'' hall) hown hall.exists_wentAll
  | passedOn hown h h' h'' hall =>
    exact went_of_inner (.passedOn hown h h' h'' hall) hown hall.exists_wentAll

theorem RanAll.exists_wentAll {depth : Nat} {t u : RunState} {ss : List Step} {vs : List Visit}
    {e? : Option RunError} (hran : RanAll en depth t ss vs e? u) :
    ∃ cs, Course.visits cs = vs ∧ WentAll en depth t cs u := by
  cases hran with
  | nil | halted | refused => exact ⟨[], rfl, .nil⟩
  | raised hgoing _ hv _ =>
    obtain ⟨c, rfl, hc⟩ := hv.exists_went
    exact ⟨[c], rfl, .cons hgoing hc .nil⟩
  | next hgoing _ hv _ hvs =>
    obtain ⟨c, rfl, hc⟩ := hv.exists_went
    obtain ⟨cs, rfl, hcs⟩ := hvs.exists_wentAll
    exact ⟨c :: cs, rfl, .cons hgoing hc hcs⟩

end

/-- The run of a step tree from a journal goes as a course. -/
structure Goes (en : Engine) (s : Step) (j : Journal) (c : Course) : Prop where
  step : c.step = s
  went : Went en 0 j.state c (outcome (s.run en) j).2.state
  result : c.result = (outcome (s.run en) j).1
  path : (outcome (s.run en) j).2.path = j.path
  trace : (outcome (s.run en) j).2.trace =
    j.trace ++ (c.timeline [] j.path).filterMap Moment.entry?

theorem Went.goes {j : Journal} {c : Course} {u : RunState} (h : Went en 0 j.state c u) :
    Goes en c.step j c := by
  have hrun : outcome (c.step.run en) j =
      (c.visit.result, ⟨u, j.path, j.trace ++ c.visit.entries j.path⟩) :=
    h.ran.outcome_runAt (Nat.zero_le _) j.path j.trace
  refine ⟨rfl, ?_, ?_, ?_, ?_⟩
  · rw [hrun]
    exact h
  · rw [hrun, c.visit_result]
  · rw [hrun]
  · rw [hrun, c.entries_timeline]

/-- **Every run goes as a course.** -/
theorem exists_goes (en : Engine) (s : Step) (j : Journal) : ∃ c, Goes en s j c := by
  obtain ⟨v, u, hran⟩ := exists_ran en s 0 j.state
  obtain ⟨c, rfl, hc⟩ := hran.exists_went
  have hstep : c.step = s := by rw [← c.visit_step, hran.step_eq]
  exact ⟨c, hstep ▸ hc.goes⟩

end Step

end Rulebook
