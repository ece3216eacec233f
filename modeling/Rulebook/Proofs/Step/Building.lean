import Rulebook.Proofs.Outcome
import Rulebook.Step.Basic

/-!
# Building trees of steps

A tree is built as a whole or not at all.  `StepDefinition.preorder` lists the steps of a definition
with their depths, each before its children, and building goes through them in this order:

    build config d = .ok s        every step is sound, and s is built from d
    build config d = .error e     e is the fault of the first step that is not sound

`Answers` says so of any part of the building, and what is built of two parts in a row answers for
the steps of both (`Answers.bind`).

**Main result** `Step.build_ok_or_first_fault`.
-/

namespace Rulebook

/-! ## What is built -/

namespace StepDefinition

mutual

/-- The steps of a definition at a depth, with their depths, each before its children. -/
def preorder : StepDefinition → Nat → List (StepDefinition × Nat)
  | ⟨name, instruction, instructions, order, cascade, children⟩, depth =>
    (⟨name, instruction, instructions, order, cascade, children⟩, depth) ::
      preorderAll children (depth + 1)

def preorderAll : List StepDefinition → Nat → List (StepDefinition × Nat)
  | [], _ => []
  | d :: ds, depth => preorder d depth ++ preorderAll ds depth

end

/-- A step that can be built, its children apart. -/
structure Sound (config : Config) (d : StepDefinition) (depth : Nat) : Prop where
  depth_le : depth ≤ config.maxDepth
  parses : ∀ text ∈ d.allInstructions, ∃ i, Instruction.parse config text = .ok i

/-- What the building of a step fails with, its children apart. -/
inductive Fault (config : Config) (d : StepDefinition) (depth : Nat) : ParseError → Prop
  | tooDeep : config.maxDepth < depth →
      Fault config d depth ⟨.tooDeep config.maxDepth, d.name, 0⟩
  /-- The error of the first instruction that is none. -/
  | instruction {before after : List String} {text : String} {e : ParseError} :
      depth ≤ config.maxDepth → d.allInstructions = before ++ text :: after →
      (∀ t ∈ before, ∃ i, Instruction.parse config t = .ok i) →
      Instruction.parse config text = .error e → Fault config d depth e

/-- The error names the first of the steps that is not sound, and is its fault. -/
def FirstFault (config : Config) (ps : List (StepDefinition × Nat)) (error : Error) : Prop :=
  ∃ before d depth after e, ps = before ++ (d, depth) :: after ∧
    (∀ p ∈ before, Sound config p.1 p.2) ∧ Fault config d depth e ∧ error = .instruction d.name e

end StepDefinition

namespace Step

open StepDefinition

mutual

/-- The step has the shape of the definition, and its instructions are those that the texts hold. -/
inductive BuiltFrom (config : Config) : StepDefinition → Step → Prop
  | of {d : StepDefinition} {s : Step} : s.name = d.name → s.order = d.order →
      s.cascade = d.cascade →
      d.allInstructions.map (Instruction.parse config) = s.instructions.map .ok →
      AllBuiltFrom config d.children s.children → BuiltFrom config d s

/-- The same of steps one by one. -/
inductive AllBuiltFrom (config : Config) : List StepDefinition → List Step → Prop
  | nil : AllBuiltFrom config [] []
  | cons {d : StepDefinition} {s : Step} {ds : List StepDefinition} {ss : List Step} :
      BuiltFrom config d s → AllBuiltFrom config ds ss → AllBuiltFrom config (d :: ds) (s :: ss)

end

end Step

/-! ## Faults -/

/-- A list is parted in one way at the first element without a property. -/
theorem first_unique {α : Type} {P : α → Prop} {before before' after after' : List α} {x x' : α}
    (h : before ++ x :: after = before' ++ x' :: after') (hbefore : ∀ a ∈ before, P a)
    (hbefore' : ∀ a ∈ before', P a) (hx : ¬P x) (hx' : ¬P x') : x = x' := by
  induction before generalizing before' with
  | nil =>
    cases before' with
    | nil => exact (List.cons.inj h).1
    | cons b before' =>
      obtain ⟨rfl, -⟩ := List.cons.inj h
      exact absurd (hbefore' x List.mem_cons_self) hx
  | cons a before ih =>
    obtain ⟨ha, hbefore⟩ := List.forall_mem_cons.1 hbefore
    cases before' with
    | nil =>
      obtain ⟨rfl, -⟩ := List.cons.inj h
      exact absurd ha hx'
    | cons b before' =>
      exact ih (List.cons.inj h).2 hbefore (List.forall_mem_cons.1 hbefore').2

namespace StepDefinition

variable {config : Config} {d : StepDefinition} {depth : Nat} {e e' : ParseError}
  {error error' : Error} {ps qs : List (StepDefinition × Nat)}

theorem not_parses_of_error {text : String} (h : Instruction.parse config text = .error e) :
    ¬∃ i, Instruction.parse config text = .ok i := by
  rintro ⟨i, hi⟩
  rw [hi] at h
  cases h

theorem Fault.not_sound (h : Fault config d depth e) : ¬Sound config d depth := by
  rintro ⟨hdepth, hparses⟩
  cases h with
  | tooDeep hdeep => exact Nat.not_lt.2 hdepth hdeep
  | @instruction _ _ text _ _ hsplit _ herror =>
    exact not_parses_of_error herror (hparses text (by simp [hsplit]))

/-- A step has one fault. -/
theorem Fault.unique (h : Fault config d depth e) (h' : Fault config d depth e') : e = e' := by
  cases h with
  | tooDeep hdeep =>
    cases h' with
    | tooDeep => rfl
    | instruction hdepth => exact absurd hdeep (Nat.not_lt.2 hdepth)
  | instruction hdepth hsplit hbefore herror =>
    cases h' with
    | tooDeep hdeep => exact absurd hdeep (Nat.not_lt.2 hdepth)
    | instruction _ hsplit' hbefore' herror' =>
      have htext := first_unique (hsplit.symm.trans hsplit') hbefore hbefore'
        (not_parses_of_error herror) (not_parses_of_error herror')
      rw [htext, herror'] at herror
      cases herror
      rfl

theorem FirstFault.not_sound (h : FirstFault config ps error) :
    ¬∀ p ∈ ps, Sound config p.1 p.2 := by
  obtain ⟨before, d, depth, after, e, rfl, -, hfault, -⟩ := h
  exact fun hsound => hfault.not_sound (hsound (d, depth) (by simp))

theorem FirstFault.unique (h : FirstFault config ps error) (h' : FirstFault config ps error') :
    error = error' := by
  obtain ⟨before, d, depth, after, e, hsplit, hbefore, hfault, rfl⟩ := h
  obtain ⟨before', d', depth', after', e', hsplit', hbefore', hfault', rfl⟩ := h'
  have hsteps := first_unique (hsplit.symm.trans hsplit') hbefore hbefore' hfault.not_sound
    hfault'.not_sound
  obtain ⟨rfl, rfl⟩ := Prod.mk.inj hsteps
  rw [hfault.unique hfault']

/-- More steps do not change the first fault. -/
theorem FirstFault.append (h : FirstFault config ps error) (qs : List (StepDefinition × Nat)) :
    FirstFault config (ps ++ qs) error := by
  obtain ⟨before, d, depth, after, e, rfl, hbefore, hfault, herror⟩ := h
  exact ⟨before, d, depth, after ++ qs, e, by simp, hbefore, hfault, herror⟩

/-- Sound steps before do not change it either. -/
theorem FirstFault.of_append (hps : ∀ p ∈ ps, Sound config p.1 p.2)
    (h : FirstFault config qs error) : FirstFault config (ps ++ qs) error := by
  obtain ⟨before, d, depth, after, e, rfl, hbefore, hfault, herror⟩ := h
  exact ⟨ps ++ before, d, depth, after, e, by simp, List.forall_mem_append.2 ⟨hps, hbefore⟩, hfault,
    herror⟩

end StepDefinition

/-! ## Building -/

namespace Step

open StepDefinition

variable {config : Config} {α β : Type} {P : α → Prop} {Q : β → Prop}
  {ps qs : List (StepDefinition × Nat)}

/-- What is built of the steps has the property, or else the first fault among them is the error. -/
def Answers (config : Config) (ps : List (StepDefinition × Nat)) (P : α → Prop) :
    Except Error α → Prop
  | .ok a => (∀ p ∈ ps, Sound config p.1 p.2) ∧ P a
  | .error error => FirstFault config ps error

theorem Answers.of_ok {a : α} (h : P a) : Answers config [] P (.ok a) :=
  ⟨nofun, h⟩

theorem Answers.bind {x : Except Error α} {f : α → Except Error β} (hx : Answers config ps P x)
    (hf : ∀ a, P a → Answers config qs Q (f a)) : Answers config (ps ++ qs) Q (x >>= f) := by
  cases x with
  | error error => exact FirstFault.append hx qs
  | ok a =>
    obtain ⟨hps, ha⟩ := hx
    have hanswer := hf a ha
    show Answers config (ps ++ qs) Q (f a)
    cases hfa : f a with
    | error error =>
      rw [hfa] at hanswer
      exact FirstFault.of_append hps hanswer
    | ok b =>
      rw [hfa] at hanswer
      exact ⟨List.forall_mem_append.2 ⟨hps, hanswer.1⟩, hanswer.2⟩

/-- Reading stops at the first text that is no instruction. -/
theorem readInstructions_ok_or_first_error (config : Config) (name : String)
    (texts : List String) :
    match readInstructions config name texts with
    | .ok is => texts.map (Instruction.parse config) = is.map .ok
    | .error error => ∃ before text after e, texts = before ++ text :: after ∧
        (∀ t ∈ before, ∃ i, Instruction.parse config t = .ok i) ∧
        Instruction.parse config text = .error e ∧ error = .instruction name e := by
  induction texts with
  | nil => rfl
  | cons text texts ih =>
    rw [readInstructions]
    cases hparse : Instruction.parse config text with
    | error e => exact ⟨[], text, texts, e, rfl, nofun, hparse, rfl⟩
    | ok i =>
      dsimp only
      cases hread : readInstructions config name texts with
      | ok is =>
        rw [hread] at ih
        show (text :: texts).map (Instruction.parse config) = (i :: is).map .ok
        rw [List.map_cons, hparse, ih, List.map_cons]
      | error error =>
        rw [hread] at ih
        obtain ⟨before, text', after, e, rfl, hbefore, herror, he⟩ := ih
        exact ⟨text :: before, text', after, e, rfl, List.forall_mem_cons.2 ⟨⟨i, hparse⟩, hbefore⟩,
          herror, he⟩

theorem readInstructions_answers {d : StepDefinition} {depth : Nat}
    (hdepth : depth ≤ config.maxDepth) : Answers config [(d, depth)]
      (fun is => d.allInstructions.map (Instruction.parse config) = is.map .ok)
      (readInstructions config d.name d.allInstructions) := by
  have hread := readInstructions_ok_or_first_error config d.name d.allInstructions
  cases hcase : readInstructions config d.name d.allInstructions with
  | ok is =>
    rw [hcase] at hread
    refine ⟨List.forall_mem_singleton.2 ⟨hdepth, fun text htext => ?_⟩, hread⟩
    have hmem : Instruction.parse config text ∈ is.map Except.ok :=
      hread ▸ List.mem_map_of_mem htext
    obtain ⟨i, -, hi⟩ := List.mem_map.1 hmem
    exact ⟨i, hi.symm⟩
  | error error =>
    rw [hcase] at hread
    obtain ⟨before, text, after, e, hsplit, hbefore, herror, rfl⟩ := hread
    exact ⟨[], d, depth, [], e, rfl, nofun, .instruction hdepth hsplit hbefore herror, rfl⟩

mutual

theorem buildAt_answers (config : Config) : ∀ (d : StepDefinition) (depth : Nat),
    Answers config (d.preorder depth) (BuiltFrom config d) (buildAt config d depth)
  | ⟨name, instruction, instructions, order, cascade, children⟩, depth => by
    rw [buildAt, preorder]
    split
    · next hdeep => exact ⟨[], _, depth, _, _, rfl, nofun, .tooDeep hdeep, rfl⟩
    · next hdepth =>
      have hchildren := buildChildren_answers config children (depth + 1)
      refine (readInstructions_answers (Nat.not_lt.1 hdepth)).bind fun is his => ?_
      rw [← List.append_nil (preorderAll children (depth + 1))]
      exact hchildren.bind fun ss hss => .of_ok (.of rfl rfl rfl his hss)

theorem buildChildren_answers (config : Config) : ∀ (ds : List StepDefinition) (depth : Nat),
    Answers config (preorderAll ds depth) (AllBuiltFrom config ds) (buildChildren config ds depth)
  | [], depth => .of_ok .nil
  | d :: ds, depth => by
    rw [buildChildren, preorderAll]
    refine (buildAt_answers config d depth).bind fun s hs => ?_
    rw [← List.append_nil (preorderAll ds depth)]
    exact (buildChildren_answers config ds depth).bind fun ss hss => .of_ok (.cons hs hss)

end

/-- A step too deep is met before the bad instruction of a later sibling of its parent. -/
example :
    let deep : StepDefinition := { name := "deep", instructions := ["FROB(1)"] }
    let parent : StepDefinition := { name := "a", children := [deep] }
    let sibling : StepDefinition := { name := "b", instructions := ["FROB(2)"] }
    (match build { maxDepth := 1 } { name := "root", children := [parent, sibling] } with
      | .ok _ => none
      | .error e => some e) = some (.instruction "deep" ⟨.tooDeep 1, "deep", 0⟩) := by
  decide +kernel

end Step

end Rulebook
