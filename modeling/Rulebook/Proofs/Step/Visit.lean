import Rulebook.Proofs.Step.Journal

/-!
# Visits of steps

A visit is a step that was entered, with what it came to and the visits of its children inside it.
`Ran en depth t s v u` says that from the state `t` the step goes as the visit `v` and leaves the
state `u`; it knows of no journal.  What the journal takes from a run is the visits in postorder,
and its path is as before:

    outcome (s.runAt en depth) j = (v.result, ⟨u, j.path, j.trace ++ v.entries j.path⟩)
-/

namespace Rulebook

/-- A step that was entered. -/
structure Visit where
  step : Step
  result : Except RunError Result
  /-- The visits of its children, in the order in which they were made. -/
  inner : List Visit

namespace Visit

/-- What is recorded of a visit. -/
def shown (v : Visit) : Result :=
  match v.result with
  | .ok r => r
  | .error e => .ofError e

def kinds (vs : List Visit) : List ResultKind := vs.map fun v => v.shown.kind

theorem kinds_cons (v : Visit) (vs : List Visit) : kinds (v :: vs) = v.shown.kind :: kinds vs := rfl

theorem shown_of_ok {v : Visit} {r : Result} (h : v.result = .ok r) : v.shown = r := by
  rw [shown, h]

theorem shown_of_error {v : Visit} {e : RunError} (h : v.result = .error e) :
    v.shown = .ofError e := by
  rw [shown, h]

mutual

/-- The visits of a step and inside it, each after those inside it and with the names of the steps
from the root to it; `above` are the names before. -/
def postorder (above : List String) : Visit → List (List String × Visit)
  | ⟨step, result, inner⟩ =>
    allPostorder (above ++ [step.name]) inner ++ [(above ++ [step.name], ⟨step, result, inner⟩)]

def allPostorder (above : List String) : List Visit → List (List String × Visit)
  | [] => []
  | v :: vs => postorder above v ++ allPostorder above vs

end

/-- The entry of a visit in the trace. -/
def entry (x : List String × Visit) : TraceEntry := ⟨Text.join "/" x.1, x.2.shown⟩

def entries (above : List String) (v : Visit) : List TraceEntry := (v.postorder above).map entry

def allEntries (above : List String) (vs : List Visit) : List TraceEntry :=
  (allPostorder above vs).map entry

theorem entries_eq (above : List String) (v : Visit) :
    v.entries above = allEntries (above ++ [v.step.name]) v.inner ++
      [⟨Text.join "/" (above ++ [v.step.name]), v.shown⟩] := by
  obtain ⟨step, result, inner⟩ := v
  rw [entries, postorder, List.map_append]
  rfl

theorem allEntries_nil (above : List String) : allEntries above [] = [] := rfl

theorem allEntries_cons (above : List String) (v : Visit) (vs : List Visit) :
    allEntries above (v :: vs) = v.entries above ++ allEntries above vs := by
  rw [allEntries, allPostorder, List.map_append]
  rfl

end Visit

namespace Step

mutual

/-- How a step that is entered at a depth can go, from a state to the state after. -/
inductive Ran (en : Engine) : Nat → RunState → Step → Visit → RunState → Prop
  /-- An instruction raises an error. -/
  | raised {depth t s e u} :
      outcome (Instruction.runAll en .noAction s.instructions) t = (.error e, u) →
      Ran en depth t s ⟨s, .error e, []⟩ u
  | childless {depth t s own u} :
      outcome (Instruction.runAll en .noAction s.instructions) t = (.ok own, u) →
      s.children = [] →
      Ran en depth t s ⟨s, .ok own, []⟩ u
  /-- The instructions did not complete or halted the run, and no child is entered. -/
  | stopped {depth t s own u} :
      outcome (Instruction.runAll en .noAction s.instructions) t = (.ok own, u) →
      s.children ≠ [] → (handOver own).isComplete = false ∨ u.halted = true →
      Ran en depth t s ⟨s, .ok (handOver own), []⟩ u
  | cascaded {depth t s own u vs w} :
      outcome (Instruction.runAll en .noAction s.instructions) t = (.ok own, u) →
      s.children ≠ [] → (handOver own).isComplete = true → u.halted = false →
      RanAll en (depth + 1) u (sortOn Step.order s.children) vs none w →
      Ran en depth t s ⟨s, .ok (combine s.cascade (handOver own) (Visit.kinds vs)), vs⟩ w
  /-- A child raises an error, which is passed on. -/
  | passedOn {depth t s own u vs e w} :
      outcome (Instruction.runAll en .noAction s.instructions) t = (.ok own, u) →
      s.children ≠ [] → (handOver own).isComplete = true → u.halted = false →
      RanAll en (depth + 1) u (sortOn Step.order s.children) vs (some e) w →
      Ran en depth t s ⟨s, .error e, vs⟩ w

/-- How steps run one after the other go; an error ends them. -/
inductive RanAll (en : Engine) :
    Nat → RunState → List Step → List Visit → Option RunError → RunState → Prop
  | nil {depth t} : RanAll en depth t [] [] none t
  | halted {depth t s ss} : t.halted = true → RanAll en depth t (s :: ss) [] none t
  /-- A step is too deep to be entered. -/
  | refused {depth t s ss} : t.halted = false → en.maxDepth < depth →
      RanAll en depth t (s :: ss) [] (some (.tooDeep en.maxDepth)) t
  | raised {depth t s ss v e u} : t.halted = false → depth ≤ en.maxDepth →
      Ran en depth t s v u → v.result = .error e →
      RanAll en depth t (s :: ss) [v] (some e) u
  | next {depth t s ss v r u vs e? w} : t.halted = false → depth ≤ en.maxDepth →
      Ran en depth t s v u → v.result = .ok r → RanAll en depth u ss vs e? w →
      RanAll en depth t (s :: ss) (v :: vs) e? w

end

variable {en : Engine}

/-! ## Every run is one of these -/

theorem exists_ranAll {depth : Nat} {ss : List Step}
    (h : ∀ s ∈ ss, ∀ t, ∃ v u, Ran en depth t s v u) (t : RunState) :
    ∃ vs e? u, RanAll en depth t ss vs e? u := by
  induction ss generalizing t with
  | nil => exact ⟨[], none, t, .nil⟩
  | cons s ss ih =>
    cases hhalted : t.halted with
    | true => exact ⟨[], none, t, .halted hhalted⟩
    | false =>
      by_cases hdepth : en.maxDepth < depth
      · exact ⟨[], _, t, .refused hhalted hdepth⟩
      · have hdepth := Nat.le_of_not_lt hdepth
        obtain ⟨v, u, hv⟩ := h s (List.mem_cons_self ..) t
        cases hresult : v.result with
        | error e => exact ⟨[v], some e, u, .raised hhalted hdepth hv hresult⟩
        | ok r =>
          obtain ⟨vs, e?, w, hvs⟩ := ih (fun s hs => h s (List.mem_cons_of_mem _ hs)) u
          exact ⟨v :: vs, e?, w, .next hhalted hdepth hv hresult hvs⟩

theorem exists_ran_of_children {depth : Nat} {s : Step}
    (h : ∀ c ∈ s.children, ∀ t, ∃ v u, Ran en (depth + 1) t c v u) (t : RunState) :
    ∃ v u, Ran en depth t s v u := by
  rcases hown : outcome (Instruction.runAll en .noAction s.instructions) t with ⟨e | own, u⟩
  · exact ⟨_, u, .raised hown⟩
  by_cases hchildren : s.children = []
  · exact ⟨_, u, .childless hown hchildren⟩
  by_cases hstop : (handOver own).isComplete = false ∨ u.halted = true
  · exact ⟨_, u, .stopped hown hchildren hstop⟩
  obtain ⟨hcomplete, hgoing⟩ : (handOver own).isComplete = true ∧ u.halted = false := by
    simpa using hstop
  obtain ⟨vs, e?, w, hall⟩ := exists_ranAll
    (fun c hc => h c ((sortOn_perm Step.order s.children).mem_iff.1 hc)) u
  cases e? with
  | none => exact ⟨_, w, .cascaded hown hchildren hcomplete hgoing hall⟩
  | some e => exact ⟨_, w, .passedOn hown hchildren hcomplete hgoing hall⟩

mutual

theorem exists_ran (en : Engine) :
    (s : Step) → (depth : Nat) → (t : RunState) → ∃ v u, Ran en depth t s v u
  | ⟨_, _, _, _, children⟩, depth, t =>
    exists_ran_of_children (children_exist_ran en children (depth + 1)) t

theorem children_exist_ran (en : Engine) : (ss : List Step) → (depth : Nat) →
    ∀ s ∈ ss, ∀ t, ∃ v u, Ran en depth t s v u
  | [], _ => nofun
  | s :: ss, depth =>
    List.forall_mem_cons.2 ⟨exists_ran en s depth, children_exist_ran en ss depth⟩

end

/-! ## The journal of a run -/

/-- What steps in a row come to. -/
def ended (vs : List Visit) : Option RunError → Except RunError (List ResultKind)
  | none => .ok (Visit.kinds vs)
  | some e => .error e

/-- A step leaves its entry after those of its children, and its name is taken from the path. -/
theorem left_allEntries {s : Step} {x : Except RunError Result} {vs : List Visit} {u : RunState}
    {path : List String} {trace : List TraceEntry} :
    StepM.left (x, ⟨u, path ++ [s.name], trace ++ Visit.allEntries (path ++ [s.name]) vs⟩) =
      (x, ⟨u, path, trace ++ Visit.entries path ⟨s, x, vs⟩⟩) := by
  rw [Visit.entries_eq, ← List.append_assoc]
  cases x <;> simp only [StepM.left, Journal.leave, Visit.shown, List.dropLast_concat]

/-- Steps in a row, with the journal before and after them. -/
def RecordsAll (en : Engine) (depth : Nat) (t : RunState) (ss : List Step) (vs : List Visit)
    (e? : Option RunError) (u : RunState) : Prop :=
  ∀ path trace, outcome (runOrdered (ss.map fun s => s.runAt en depth)) ⟨t, path, trace⟩ =
    (ended vs e?, ⟨u, path, trace ++ Visit.allEntries path vs⟩)

theorem outcome_body_children {depth : Nat} {t u w : RunState} {s : Step} {own : Result}
    {vs : List Visit} {e? : Option RunError}
    (hown : outcome (Instruction.runAll en .noAction s.instructions) t = (.ok own, u))
    (hchildren : s.children ≠ []) (hcomplete : (handOver own).isComplete = true)
    (hgoing : u.halted = false)
    (hall : RecordsAll en (depth + 1) u (sortOn Step.order s.children) vs e? w)
    (path : List String) (trace : List TraceEntry) :
    outcome (s.body en depth) ⟨t, path, trace⟩ =
      ((ended vs e?).map (combine s.cascade (handOver own)),
        ⟨w, path, trace ++ Visit.allEntries path vs⟩) := by
  have hgo : ¬((handOver own).isComplete = false ∨ u.halted = true) := by
    rw [hcomplete, hgoing]
    exact fun h => h.elim nofun nofun
  rw [body, outcome_bind, StepM.outcome_ofRun, hown, continued, if_neg hchildren, outcome_bind,
    StepM.outcome_isHalted, continued, if_neg hgo, outcome_bind, hall]
  cases e? <;> rfl

mutual

/-- How a step goes is what its run does to the journal. -/
theorem Ran.outcome_runAt {depth : Nat} {t u : RunState} {s : Step} {v : Visit}
    (hran : Ran en depth t s v u) (hdepth : depth ≤ en.maxDepth) (path : List String)
    (trace : List TraceEntry) :
    outcome (s.runAt en depth) ⟨t, path, trace⟩ =
      (v.result, ⟨u, path, trace ++ v.entries path⟩) := by
  -- the entry of the step itself comes last, whatever its body came to
  have of_body {x : Except RunError Result} {vs : List Visit} {u : RunState}
      (h : outcome (s.body en depth) ⟨t, path ++ [s.name], trace⟩ =
        (x, ⟨u, path ++ [s.name], trace ++ Visit.allEntries (path ++ [s.name]) vs⟩)) :
      outcome (s.runAt en depth) ⟨t, path, trace⟩ =
        (x, ⟨u, path, trace ++ Visit.entries path ⟨s, x, vs⟩⟩) := by
    rw [runAt_entered hdepth, StepM.outcome_entered, Journal.enter, h, left_allEntries]
  cases hran with
  | raised hown =>
    apply of_body
    rw [body, outcome_bind, StepM.outcome_ofRun, hown, Visit.allEntries_nil, List.append_nil]
    rfl
  | childless hown hchildren =>
    apply of_body
    rw [body, outcome_bind, StepM.outcome_ofRun, hown, continued, if_pos hchildren,
      Visit.allEntries_nil, List.append_nil]
    rfl
  | stopped hown hchildren hstop =>
    apply of_body
    rw [body, outcome_bind, StepM.outcome_ofRun, hown, continued, if_neg hchildren, outcome_bind,
      StepM.outcome_isHalted, continued, if_pos hstop, Visit.allEntries_nil, List.append_nil]
    rfl
  | cascaded hown hchildren hcomplete hgoing hall =>
    exact of_body (outcome_body_children hown hchildren hcomplete hgoing hall.recordsAll _ _)
  | passedOn hown hchildren hcomplete hgoing hall =>
    exact of_body (outcome_body_children hown hchildren hcomplete hgoing hall.recordsAll _ _)

theorem RanAll.recordsAll {depth : Nat} {t u : RunState} {ss : List Step} {vs : List Visit}
    {e? : Option RunError} (hran : RanAll en depth t ss vs e? u) :
    RecordsAll en depth t ss vs e? u := by
  intro path trace
  cases hran with
  | nil => rw [Visit.allEntries_nil, List.append_nil]; rfl
  | halted hhalted =>
    rw [List.map_cons, outcome_runOrdered_halted _ _ hhalted, Visit.allEntries_nil, List.append_nil]
    rfl
  | refused hgoing hdepth =>
    rw [List.map_cons, outcome_runOrdered_cons _ _ hgoing, runAt_refused hdepth,
      Visit.allEntries_nil, List.append_nil]
    rfl
  | raised hgoing hdepth hv hresult =>
    rw [List.map_cons, outcome_runOrdered_cons _ _ hgoing, hv.outcome_runAt hdepth, hresult,
      Visit.allEntries_cons, Visit.allEntries_nil, List.append_nil]
    rfl
  | next hgoing hdepth hv hresult hvs =>
    rw [List.map_cons, outcome_runOrdered_cons _ _ hgoing, hv.outcome_runAt hdepth, hresult,
      continued, outcome_bind, hvs.recordsAll, Visit.allEntries_cons, ← List.append_assoc]
    cases e? with
    | none => rw [ended, ended, Visit.kinds_cons, Visit.shown_of_ok hresult]; rfl
    | some e => rfl

end

end Step

end Rulebook
