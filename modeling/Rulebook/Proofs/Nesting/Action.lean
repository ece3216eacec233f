import Rulebook.Proofs.Action.Reading
import Rulebook.Proofs.Evaluation.Error
import Rulebook.Proofs.Run.Builtin
import Rulebook.Proofs.Run.Nested

/-!
# Running actions within the limit

`a.Fits limit depth` says that an action run at a depth of nesting stays within the limit, its rules
included.  Reading an action with `levels` levels left gives one that fits where as many levels are
left to a run:

    read config levels cs position = .ok a,  depth + levels = limit + 1  →  a.Fits limit depth
-/

namespace Rulebook

/-- An error other than those of the limit on nesting. -/
def RunError.IsShallow : RunError → Prop
  | .tooDeep _ => False
  | .rule e => e.IsShallow
  | .noHandler _ | .invalidTarget _ _ | .failed _ _ => True

theorem admitsFaults_isShallow : Builtin.AdmitsFaults RunError.IsShallow :=
  ⟨fun _ _ => trivial, fun _ _ => trivial⟩

namespace Action

mutual

/-- Actions stay within the limit when the outermost is at this depth, and rules are no higher than
can be tested. -/
def Fits (limit : Nat) : Action → Nat → Prop
  | ⟨_, _, params, _, _, _⟩, depth => depth ≤ limit ∧ ParamsFit limit params (depth + 1)

def ParamsFit (limit : Nat) : List (ParamOf Action) → Nat → Prop
  | [], _ => True
  | p :: ps, depth => ParamFits limit p depth ∧ ParamsFit limit ps depth

def ParamFits (limit : Nat) : ParamOf Action → Nat → Prop
  | .literal _, _ | .reference _ _, _ => True
  | .rule r, _ => r.height ≤ limit + 1
  | .action a, depth => Fits limit a depth

end

variable {limit depth : Nat} {config : Config}

theorem paramsFit_iff {ps : List Param} :
    ParamsFit limit ps depth ↔ ∀ p ∈ ps, ParamFits limit p depth := by
  induction ps with
  | nil => simp [ParamsFit]
  | cons p ps ih => simp [ParamsFit, ih]

theorem fits_iff {a : Action} :
    a.Fits limit depth ↔ depth ≤ limit ∧ ∀ p ∈ a.params, ParamFits limit p (depth + 1) := by
  obtain ⟨kind, name, params, negative, isTest, source⟩ := a
  rw [Fits, paramsFit_iff]

/-! ## Reading -/

theorem fits_of_read {levels : Nat} {cs : List Char} {position : Nat} {a : Action}
    (h : read config levels cs position = .ok a) (hdepth : depth + levels = config.maxDepth + 1) :
    a.Fits config.maxDepth depth := by
  -- levels are counted down as the depth goes up, and their sum stays
  induction levels generalizing depth cs position a with
  | zero =>
    rw [read] at h
    cases h
  | succ levels ih =>
    rw [read] at h
    dsimp only at h
    split at h
    · cases h
    · obtain ⟨hparams, -⟩ := readBody_ok h
      rw [fits_iff]
      refine ⟨by omega, fun p hp => ?_⟩
      obtain ⟨cs', position', -, hparam⟩ := hparams p hp
      rcases readParam_ok hparam with ⟨v, rfl⟩ | ⟨o, q, rfl⟩ | ⟨text, r, hr, rfl⟩ | ⟨b, hb, rfl⟩
      · trivial
      · trivial
      · exact height_le_of_compile hr
      · exact ih hb (by omega)

/-! ## Running -/

theorem contained_fits {en : Engine} (hreg : en.registry.Raises RunError.IsShallow) :
    Contained en ⟨True, True, RunError.IsShallow⟩ (Fits en.maxDepth) where
  tooDeep _ _ h hdepth := absurd (fits_iff.1 h).1 (Nat.not_le.2 hdepth)
  noHandler _ _ _ _ := trivial
  script a _ handler _ hhandler :=
    ⟨.all RunError.IsShallow, rfl, (hreg a.kind handler hhandler _).within, fun _ _ => .inr trivial⟩
  rule _ _ _ _ _ h hr he := Rule.evaluate_error ((fits_iff.1 h).2 _ hr) he
  nested _ _ _ h hm := (fits_iff.1 h).2 _ hm

theorem run_ends {en : Engine} (hreg : en.registry.Raises RunError.IsShallow) (a : Action)
    (depth : Nat) (h : a.Fits en.maxDepth depth) :
    Ends RunError.IsShallow (fun _ => True) (a.run en depth) :=
  ((contained_fits hreg).run_within h).ends

end Action

end Rulebook
