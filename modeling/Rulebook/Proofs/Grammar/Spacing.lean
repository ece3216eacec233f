import Rulebook.Proofs.Grammar.Compile
import Rulebook.Proofs.Grammar.Coverage

/-!
# White space between tokens

`Spaced slices text` says that `text` holds the slices in order, with some white space between each
two.  When they are those of the tokens of another text, both texts have tokens of the same kinds,
so one is compiled when the other is, to a rule of the same shape (`scan_of_spaced`):

    [<-1-f]        [ < -1 - f ]
-/

namespace Rulebook.Token

open Text Grammar

variable {cs ds gap : List Char} {slices : List (List Char)} {ts : List Token}
  {ks : List TokenKind} {kind : TokenKind}

/-- The slices in order, with white space between each two. -/
inductive Spaced : List (List Char) → List Char → Prop
  | nil : Spaced [] []
  | one (cs : List Char) : Spaced [cs] cs
  | cons {cs ds : List Char} {slices : List (List Char)} {text : List Char} (gap : List Char) :
      gap ≠ [] → (∀ c ∈ gap, isSpace c = true) → Spaced (ds :: slices) text →
      Spaced (cs :: ds :: slices) (cs ++ (gap ++ text))

/-- The characters of a token in its text. -/
def source (text : String) (t : Token) : List Char :=
  slice text.toList t.span.start t.span.stop

/-- A token comes before the others when white space parts it from them. -/
theorem Stands.lexes (h : Stands kind cs) (hds : Clear ds) (hks : Lexes ds ks) :
    Lexes (cs ++ ds) (kind :: ks) := by
  obtain ⟨c, rest, rfl, hc, hlex⟩ := h
  have hdrop : Lexes ((rest ++ ds).drop rest.length) ks := by rwa [List.drop_left]
  exact .token hc (hlex ds hds) hdrop

theorem lexes_of_spaced {f : Token → List Char} (hstands : ∀ t ∈ ts, Stands t.kind (f t))
    (h : Spaced (ts.map f) cs) : Lexes cs (ts.map Token.kind) := by
  induction ts generalizing cs with
  | nil =>
    cases h
    exact .nil
  | cons t ts ih =>
    obtain ⟨ht, hts⟩ := List.forall_mem_cons.1 hstands
    cases ts with
    | nil =>
      cases h
      have hone := ht.lexes .nil .nil
      rwa [List.append_nil] at hone
    | cons u ts =>
      cases h with
      | cons gap hne hgap hrest =>
        exact ht.lexes (.of_all hne hgap _) ((lexes_space_append hgap).2 (ih hts hrest))

/-- The texts that are compiled to a rule of some shape are those that it is derived from. -/
theorem exists_compile_iff {config : Config} {text : String} {s : Shape} :
    (∃ r, Rule.compile config text = .ok r ∧ r.shape = s) ↔ Derives config.maxDepth text s := by
  constructor
  · rintro ⟨r, hr, rfl⟩
    exact compile_sound hr
  · exact compile_complete

/-- **White space between tokens makes no difference.**  A text of the tokens of another, with white
space between each two, has tokens of the same kinds, and is compiled to the same rule but for
sources and spans, or to none when the other is. -/
theorem scan_of_spaced {text spaced : String} {ts : List Token} (h : scan text = .ok ts)
    (hspaced : Spaced (ts.map (source text)) spaced.toList) :
    (∃ us, scan spaced = .ok us ∧ us.map Token.kind = ts.map Token.kind) ∧
    ∀ (config : Config) (s : Shape),
      (∃ r, Rule.compile config spaced = .ok r ∧ r.shape = s) ↔
        ∃ r, Rule.compile config text = .ok r ∧ r.shape = s := by
  have hstands : ∀ t ∈ ts, Stands t.kind (source text t) := by
    intro t ht
    obtain ⟨cs, hslice, hcs⟩ := stands_of_scanFrom (IsSlice.whole text.toList) h t ht
    rwa [source, hslice.slice_eq]
  have hlex := lexes_of_scanFrom h
  have hlex' := lexes_of_spaced hstands hspaced
  refine ⟨hlex'.exists_scanFrom 0, fun config s => ?_⟩
  rw [exists_compile_iff, exists_compile_iff, derives_iff_lexes, derives_iff_lexes]
  constructor
  · rintro ⟨ks, hks, hchain⟩
    exact ⟨_, hlex, hlex'.unique hks ▸ hchain⟩
  · rintro ⟨ks, hks, hchain⟩
    exact ⟨_, hlex', hlex.unique hks ▸ hchain⟩

/-- A hyphen that is a sign, and one that introduces a flag. -/
theorem scan_of_spaced_hyphens :
    let kinds := [.openBracket, .operator "<", .word "-1", .dash, .word "f", .closeBracket]
    (∃ ts, scan "[<-1-f]" = .ok ts ∧ ts.map Token.kind = kinds) ∧
      (∃ us, scan "[ <\t-1  - f\n]" = .ok us ∧ us.map Token.kind = kinds) ∧
      ∀ config s, (∃ r, Rule.compile config "[ <\t-1  - f\n]" = .ok r ∧ r.shape = s) ↔
        ∃ r, Rule.compile config "[<-1-f]" = .ok r ∧ r.shape = s := by
  intro kinds
  have hscan : (scan "[<-1-f]").toOption = some [⟨.openBracket, ⟨0, 1⟩⟩, ⟨.operator "<", ⟨1, 2⟩⟩,
      ⟨.word "-1", ⟨2, 4⟩⟩, ⟨.dash, ⟨4, 5⟩⟩, ⟨.word "f", ⟨5, 6⟩⟩, ⟨.closeBracket, ⟨6, 7⟩⟩] := by
    decide +kernel
  have hspaced : Spaced [['['], ['<'], ['-', '1'], ['-'], ['f'], [']']]
      "[ <\t-1  - f\n]".toList :=
    .cons [' '] (by simp) (by simp [isSpace]) (.cons ['\t'] (by simp) (by simp [isSpace])
      (.cons [' ', ' '] (by simp) (by simp [isSpace]) (.cons [' '] (by simp) (by simp [isSpace])
        (.cons ['\n'] (by simp) (by simp [isSpace]) (.one [']'])))))
  obtain ⟨hagain, hcompile⟩ := scan_of_spaced (eq_ok_of_toOption hscan) hspaced
  exact ⟨⟨_, eq_ok_of_toOption hscan, rfl⟩, hagain, hcompile⟩

end Token

end Rulebook
