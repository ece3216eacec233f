import Rulebook.Proofs.Grammar.Compile

/-!
# Heights of rules

The height of a rule is the number of nodes on its longest branch.  Each node below another stands
in parentheses of its own, so parentheses that nest at most `depth` deep leave no more than
`depth + 1` nodes on a branch:

    ChainForm depth ks s  →  s.height ≤ depth + 1
-/

namespace Rulebook

namespace Shape

mutual

def height : Shape → Nat
  | .bracket .. => 0
  | .node groups => groupsHeight groups + 1

def groupsHeight : List (GroupOf Shape) → Nat
  | [] => 0
  | g :: gs => max (groupHeight g) (groupsHeight gs)

def groupHeight : GroupOf Shape → Nat
  | ⟨_, members⟩ => membersHeight members

def membersHeight : List Shape → Nat
  | [] => 0
  | s :: ss => max (height s) (membersHeight ss)

end

end Shape

/-- Number of nodes on the longest branch. -/
def Rule.height (r : Rule) : Nat := r.shape.height

namespace Grammar

open Shape

mutual

theorem UnitForm.height_le {depth : Nat} {ks : List TokenKind} {s : Shape} :
    UnitForm depth ks s → s.height ≤ depth
  | .bracket hb => by
    cases hb
    exact Nat.zero_le _
  | .parens hc => ChainForm.height_le hc

theorem ChainForm.height_le {depth : Nat} {ks : List TokenKind} {s : Shape} :
    ChainForm depth ks s → s.height ≤ depth + 1
  | .one hu => by
    have h := UnitForm.height_le hu
    omega
  | .more hu hl => by
    have h := UnitForm.height_le hu
    have hlinks := LinksForm.height_le hl
    simp only [List.map_cons, membersHeight] at hlinks
    simp only [height, groupsHeight, groupHeight, membersHeight]
    omega

theorem LinksForm.height_le {depth : Nat} {ks : List TokenKind} {links : List (Join × Shape)} :
    LinksForm depth ks links → membersHeight (links.map Prod.snd) ≤ depth
  | .nil => Nat.zero_le _
  | .cons _ hu hl => by
    have h := UnitForm.height_le hu
    have hlinks := LinksForm.height_le hl
    simp only [List.map_cons, membersHeight]
    omega

end

end Grammar

/-- A rule that is compiled has no more nodes on a branch than may be tested. -/
theorem height_le_of_compile {config : Config} {text : String} {r : Rule}
    (h : Rule.compile config text = .ok r) : r.height ≤ config.maxDepth + 1 := by
  obtain ⟨ts, -, hchain⟩ := Grammar.compile_sound h
  exact hchain.height_le

end Rulebook
