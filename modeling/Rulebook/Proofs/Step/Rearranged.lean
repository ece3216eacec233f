import Rulebook.Proofs.Step.Cascade
import Rulebook.Step.Outline

/-!
# The order of siblings

Where a child stands among its siblings matters only for those with its own order: trees that differ
in nothing else run alike and are outlined alike.

    ss and ts have the same steps of each order, in the same sequence
      →  sortOn Step.order ss = sortOn Step.order ts

**Main result** `Step.run_of_rearranged`.  Its second half says that running and outlining sort
alike: a step whose children all ran lists them as they ran.
-/

namespace Rulebook.Step

/-- The same steps in another sequence, in which those with one order stand as before. -/
structure Shuffled (ss ts : List Step) : Prop where
  perm : ss.Perm ts
  ties : ∀ k, ss.filter (·.order = k) = ts.filter (·.order = k)

mutual

/-- The trees differ only in the sequence of siblings, at any depth. -/
inductive Rearranged : Step → Step → Prop
  | of {s : Step} {ss ts : List Step} : AllRearranged s.children ss → Shuffled ss ts →
      Rearranged s { s with children := ts }

/-- The same of steps one by one. -/
inductive AllRearranged : List Step → List Step → Prop
  | nil : AllRearranged [] []
  | cons {s t : Step} {ss ts : List Step} : Rearranged s t → AllRearranged ss ts →
      AllRearranged (s :: ss) (t :: ts)

end

/-! ## What does not see the sequence -/

variable {β : Type} {view : Step → Nat → β}

/-- What is seen of a step, at its depth in the tree, is up to what is seen of its children in the
order in which they run. -/
def SeesOrder (view : Step → Nat → β) : Prop :=
  ∀ (s : Step) (ts : List Step) (depth : Nat),
    (sortOn Step.order s.children).map (view · (depth + 1)) =
      (sortOn Step.order ts).map (view · (depth + 1)) →
    view s depth = view { s with children := ts } depth

/-- Steps that look alike one by one, their orders included, look alike when they are sorted. -/
theorem map_sortOn_congr {f : Step → β} {ss ts : List Step}
    (h : ss.map (fun s => (s.order, f s)) = ts.map fun s => (s.order, f s)) :
    (sortOn Step.order ss).map f = (sortOn Step.order ts).map f := by
  have hpairs (us : List Step) : (sortOn Step.order us).map f =
      (sortOn Prod.fst (us.map fun s => (s.order, f s))).map Prod.snd := by
    rw [sortOn_map, List.map_map]
    rfl
  rw [hpairs, h, ← hpairs]

mutual

/-- Such a view does not tell rearranged trees apart. -/
theorem Rearranged.view_eq (hview : SeesOrder view) : {s t : Step} → Rearranged s t →
    (depth : Nat) → (s.order, view s depth) = (t.order, view t depth)
  | s, _, @Rearranged.of _ _ ts hchildren hshuffled, depth => by
    refine congrArg (s.order, ·) (hview s ts depth ?_)
    rw [map_sortOn_congr (hchildren.map_eq hview (depth + 1)),
      sortOn_eq_of_filter_eq Step.order hshuffled.ties]

theorem AllRearranged.map_eq (hview : SeesOrder view) : {ss ts : List Step} →
    AllRearranged ss ts → (depth : Nat) →
      ss.map (fun s => (s.order, view s depth)) = ts.map fun s => (s.order, view s depth)
  | _, _, .nil, _ => rfl
  | _, _, .cons hs hss, depth => by
    rw [List.map_cons, List.map_cons, hs.view_eq hview depth, hss.map_eq hview depth]

end

/-! ## Runs -/

theorem seesOrder_runAt (en : Engine) : SeesOrder (runAt en) := by
  intro s ts depth h
  by_cases hdepth : depth ≤ en.maxDepth
  · have hlength : s.children.length = ts.length := by
      simpa [(sortOn_perm Step.order _).length_eq] using congrArg List.length h
    have hempty : s.children = [] ↔ ts = [] := by
      rw [← List.length_eq_zero_iff, hlength, List.length_eq_zero_iff]
    rw [runAt_entered hdepth, runAt_entered hdepth]
    simp only [body, h, hempty]
  · rw [runAt_tooDeep (Nat.lt_of_not_le hdepth), runAt_tooDeep (Nat.lt_of_not_le hdepth)]

/-! ## Outlines -/

/-- The children of an outline stand in the order in which they run. -/
theorem outline_eq (s : Step) : s.outline =
    { name := s.name
      cascade := s.cascade
      lines := s.instructions.map Instruction.reading
      children := (sortOn Step.order s.children).map outline } := by
  have hpairs (ss : List Step) : childOutlines ss = ss.map fun s => (s.order, s.outline) := by
    induction ss with
    | nil => rfl
    | cons s ss ih =>
      obtain ⟨name, order, instructions, cascade, children⟩ := s
      rw [childOutlines, ih, List.map_cons]
  obtain ⟨name, order, instructions, cascade, children⟩ := s
  rw [outline, hpairs, sortOn_map, List.map_map]
  rfl

theorem seesOrder_outline : SeesOrder fun s _ => s.outline := by
  intro s ts depth h
  dsimp only at h ⊢
  rw [outline_eq, outline_eq, h]

/-! ## The order of a run -/

variable {en : Engine}

/-- The children that a step entered are the first of those it lists. -/
theorem Went.inner_prefix {depth : Nat} {t u : RunState} {c : Course} (h : Went en depth t c u) :
    c.inner.map Course.step <+: sortOn Step.order c.step.children := by
  cases h with
  | @of _ _ _ _ cs _ _ hran _ _ =>
    rw [← Course.steps_visits]
    generalize Course.visits cs = vs at hran
    cases hran with
    | raised | childless | stopped => exact List.nil_prefix
    | cascaded _ _ _ _ hall => exact hall.steps_prefix
    | passedOn _ _ _ _ hall => exact hall.steps_prefix

/-- **The sequence of siblings does not matter beyond ties**: rearranged trees give the same result
or error, target, halt flag and trace, and the same outline.  A step that entered all its children
lists them in the order in which they ran. -/
theorem run_of_rearranged :
    (∀ s t : Step, Rearranged s t →
      (∀ en j, outcome (s.run en) j = outcome (t.run en) j) ∧ s.outline = t.outline) ∧
    ∀ en s j c, Goes en s j c → ∀ d ∈ c.all, d.inner.length = d.step.children.length →
      d.inner.map (fun child => child.step.outline) = d.step.outline.children := by
  refine ⟨fun s t h => ⟨fun en j => ?_, ?_⟩, fun en s j c hc d hd hall => ?_⟩
  · have hrun := (Prod.mk.inj (h.view_eq (seesOrder_runAt en) 0)).2
    rw [run, run, hrun]
  · exact (Prod.mk.inj (h.view_eq seesOrder_outline 0)).2
  · obtain ⟨depth, t, u, hwent⟩ := hc.went.went_of_mem_all hd
    have hordered : d.inner.map Course.step = sortOn Step.order d.step.children := by
      refine hwent.inner_prefix.eq_of_length ?_
      rw [List.length_map, hall, (sortOn_perm Step.order _).length_eq]
    rw [outline_eq, ← hordered, List.map_map]
    rfl

/-- Of three children the second runs first; the others have one order. -/
theorem run_of_rearranged_ties :
    let en : Engine := { registry := .builtin, today := .earliest }
    let leaf (name : String) (order : Int) : Step :=
      { name, order, instructions := [.action (.of .set [.literal (.text name)])] }
    let s : Step := { name := "root", children := [leaf "b" 2, leaf "a" 1, leaf "c" 2] }
    let t : Step := { name := "root", children := [leaf "a" 1, leaf "b" 2, leaf "c" 2] }
    let j : Journal := { state := { target := .null } }
    Rearranged s t ∧ outcome (s.run en) j = outcome (t.run en) j ∧ s.outline = t.outline ∧
      ∃ c, Goes en s j c ∧ c.inner.map Course.step = [leaf "a" 1, leaf "b" 2, leaf "c" 2] ∧
        c.inner.map (fun child => child.step.outline) = s.outline.children := by
  intro en leaf s t j
  have hleaf (name : String) (order : Int) : Rearranged (leaf name order) (leaf name order) :=
    .of .nil ⟨.refl _, fun _ => rfl⟩
  have hties : Shuffled s.children t.children := by
    refine ⟨List.Perm.swap .., fun k => ?_⟩
    by_cases hone : k = 1 <;> by_cases htwo : k = 2 <;>
      simp [s, t, leaf, eq_comm, hone, htwo]
  have hst : Rearranged s t :=
    .of (.cons (hleaf "b" 2) (.cons (hleaf "a" 1) (.cons (hleaf "c" 2) .nil))) hties
  obtain ⟨hsame, hlisted⟩ := run_of_rearranged
  refine ⟨hst, (hsame s t hst).1 en j, (hsame s t hst).2, ?_⟩
  let visit (name : String) (order : Int) : Visit :=
    ⟨leaf name order, .ok (.completeWith (.text name)), []⟩
  have hvisit (name : String) (order : Int) (v : Value) :
      Ran en 1 { target := v } (leaf name order) (visit name order) { target := .text name } :=
    .childless rfl rfl
  have hall : RanAll en 1 j.state [leaf "a" 1, leaf "b" 2, leaf "c" 2]
      [visit "a" 1, visit "b" 2, visit "c" 2] none { target := .text "c" } :=
    .next rfl (by decide) (hvisit "a" 1 _) rfl (.next rfl (by decide) (hvisit "b" 2 _) rfl
      (.next rfl (by decide) (hvisit "c" 2 _) rfl .nil))
  have hown : outcome (Instruction.runAll en .noAction s.instructions) j.state =
      (.ok .noAction, j.state) := rfl
  have hran : Ran en 0 j.state s _ { target := .text "c" } :=
    .cascaded hown (List.cons_ne_nil _ _) rfl rfl hall
  obtain ⟨⟨step, turns, handed, inner, result⟩, hcourse, hwent⟩ := hran.exists_went
  obtain ⟨rfl, -, hinner⟩ := Visit.mk.inj hcourse
  have hsteps : inner.map Course.step = [leaf "a" 1, leaf "b" 2, leaf "c" 2] := by
    rw [← Course.steps_visits, hinner]
    rfl
  refine ⟨_, hwent.goes, hsteps, hlisted en s j _ hwent.goes _ (List.mem_cons_self ..) ?_⟩
  simpa [s] using congrArg List.length hsteps

end Rulebook.Step
