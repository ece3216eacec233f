import Rulebook.Proofs.Outcome
import Rulebook.Run.Basic

/-!
# What scripts raise

`script.Raises P` says that the errors of a script are among `P`, as long as those that its requests
answer with are.
-/

namespace Rulebook

variable {α : Type} {P : RunError → Prop}

/-- Whatever error the answer is, it is among `P`. -/
def AnswersIn (P : RunError → Prop) (r : Except RunError α) : Prop := ∀ e, r = .error e → P e

namespace Script

/-- The errors raised are among `P`, as long as those answered are. -/
def Raises (P : RunError → Prop) : Script α → Prop
  | .done _ => True
  | .raise e => P e
  | .target next => ∀ v, (next v).Raises P
  | .setTarget _ next => next.Raises P
  | .halt next => next.Raises P
  | .value _ next => ∀ r, AnswersIn P r → (next r).Raises P
  | .run _ next => ∀ r, AnswersIn P r → (next r).Raises P
  | .runWith _ _ next => ∀ r, AnswersIn P r → (next r).Raises P

end Script

/-- The scripts of the handler raise only errors in `P`, and pass on what is answered. -/
def Handler.Raises (P : RunError → Prop) (h : Handler) : Prop := ∀ c, (h.script c).Raises P

def Registry.Raises (P : RunError → Prop) (r : Registry) : Prop :=
  ∀ kind h, r.handler? kind = some h → h.Raises P

end Rulebook
