import Rulebook.Proofs.Grammar.Placement

/-!
# Where errors in rules point

Reading a rule fails at a token, or at the end of the text.  The fragment of the error is the text
from the token on, of the token itself or of a modifier that begins there; at the end it is the text
from the last token on, and stops there:

    compile config text = .error e   →   e.PointsInto text
-/

namespace Rulebook

open Text Token

namespace TokenKind

/-- No token is shown as the end of the text is. -/
theorem describe_ne (kind : TokenKind) : kind.describe ≠ "end of input" := by
  intro h
  have hhead : kind.describe.toList.head? = some 'e' := by rw [h]; rfl
  cases kind <;> simp [describe] at hhead

end TokenKind

theorem Modifier.Fault.not_atEnd {fragment : String} {position : Nat} (f : Modifier.Fault) :
    ¬ (f.error fragment position).AtEnd := by
  rintro ⟨expected, h⟩
  cases f <;> cases h

namespace Grammar

open Rule

/-! ## Tokens in a source -/

/-- The tokens stand in the source, and so does the place where its last token begins. -/
structure Stands (src : RuleSource) (ts : List Token) : Prop where
  placed : Placed src.text ts
  tail : ∃ cs, IsSlice src.text src.tail src.size cs

variable {src : RuleSource} {ts us rest : List Token} {t : Token} {e : ParseError} {n : Nat}
  {expected : String}

theorem Stands.sublist (h : Stands src ts) (hus : us.Sublist ts) : Stands src us :=
  ⟨h.placed.sublist hus, h.tail⟩

theorem Stands.tail_of_cons (h : Stands src (t :: ts)) : Stands src ts :=
  h.sublist (List.sublist_cons_self t ts)

theorem Stands.drop (h : Stands src ts) (n : Nat) : Stands src (ts.drop n) :=
  h.sublist (List.drop_sublist n ts)

theorem startsIn_slice {span : Span} {cs : List Char} {cause : ParseCause}
    (h : IsSlice src.text span.start span.stop cs) :
    ParseError.StartsIn ⟨cause, src.slice span, span.start⟩ src.text := by
  refine ⟨span.stop, ?_⟩
  rw [RuleSource.slice, String.toList_ofList, h.slice_eq]
  exact h

theorem Stands.startsIn (h : Stands src ts) (ht : t ∈ ts) (cause : ParseCause) :
    ParseError.StartsIn ⟨cause, src.slice t.span, t.span.start⟩ src.text := by
  obtain ⟨cs, -, hcs⟩ := h.placed.spelled t ht
  exact startsIn_slice hcs

theorem Stands.unexpected (h : Stands src ts) (ht : t ∈ ts) (expected : String) :
    (src.unexpected expected t).PointsInto src.text := by
  refine (h.startsIn ht _).pointsInto ?_
  rintro ⟨expected', hcause⟩
  exact t.kind.describe_ne (ParseCause.unexpected.inj hcause).2

theorem Stands.atEnd (h : Stands src ts) (expected : String) :
    (src.atEnd expected).PointsInto src.text := by
  obtain ⟨cs, hcs⟩ := h.tail
  refine ParseError.StopsIn.pointsInto ⟨src.tail, ?_⟩ ⟨expected, rfl⟩
  show IsSlice src.text src.tail src.size (src.slice ⟨src.tail, src.size⟩).toList
  rw [RuleSource.slice, String.toList_ofList, hcs.slice_eq]
  exact hcs

theorem Stands.missing (h : Stands src ts) (expected : String) :
    (src.missing expected ts).PointsInto src.text := by
  cases ts with
  | nil => exact h.atEnd expected
  | cons t ts => exact h.unexpected List.mem_cons_self expected

/-- From a token to the end of a later one. -/
theorem Stands.reach (h : Stands src (t :: rest)) (hn : n ≤ rest.length) (cause : ParseCause) :
    ParseError.StartsIn
      ⟨cause, src.slice ⟨t.span.start, stopOf (t :: rest) (n + 1)⟩, t.span.start⟩ src.text := by
  have hlt : n < (t :: rest).length := Nat.lt_succ_of_le hn
  have hu : (t :: rest)[n] ∈ t :: rest := List.getElem_mem hlt
  obtain ⟨cs, -, hcs⟩ := h.placed.spelled t List.mem_cons_self
  obtain ⟨ds, -, hds⟩ := h.placed.spelled _ hu
  have hle : t.span.start ≤ (t :: rest)[n].span.stop :=
    Nat.le_trans (in_extent h.placed hu).1 (h.placed.start_le hu)
  obtain ⟨es, hes⟩ := hcs.exists_between hds hle
  have hstop : stopOf (t :: rest) (n + 1) = (t :: rest)[n].span.stop := by
    rw [stopOf, Nat.add_sub_cancel, List.getElem?_eq_getElem hlt]
  rw [hstop]
  exact startsIn_slice hes

/-! ## Brackets -/

/-- Errors point into the text of the source. -/
abbrev Points {α : Type} (src : RuleSource) (x : Except ParseError α) : Prop :=
  OnError (·.PointsInto src.text) x

theorem readOperand_points (h : Stands src ts) : Points src (readOperand src ts) := by
  unfold readOperand
  split
  · split
    · split
      · exact onError_ok _
      · exact onError_error (h.unexpected List.mem_cons_self _)
    · exact onError_ok _
  · exact onError_ok _

theorem mem_of_readOperand {op : Operand} (h : readOperand src ts = .ok (some (op, t), n)) :
    t ∈ ts := by
  unfold readOperand at h
  repeat' split at h
  all_goals cases h
  exact List.mem_cons_self

theorem settleOperand_points {op : Option (Operand × Token)} {target : Option Target}
    (h : Stands src ts) (hop : ∀ o t, op = some (o, t) → t ∈ ts) (hrest : rest ⊆ ts) :
    Points src (settleOperand src op target rest) := by
  unfold settleOperand
  split
  · exact onError_ok _
  · exact onError_ok _
  · exact onError_ok _
  · next o t =>
    refine onError_error (h.unexpected ?_ _)
    cases rest with
    | nil => exact hop o t rfl
    | cons u us => exact hrest List.mem_cons_self

theorem readArguments_points (h : Stands src ts) : Points src (readArguments src ts) := by
  fun_induction readArguments src ts with
  | case1 => exact onError_error (h.atEnd _)
  | case2 => exact onError_error (h.atEnd _)
  | case3 => exact onError_error (h.unexpected List.mem_cons_self _)
  | case4 => exact onError_error (h.unexpected List.mem_cons_self _)
  | case5 => exact onError_ok _
  | case6 => exact onError_ok _
  | case7 t u rest a ha hu hu' e he ih => exact onError_error (ih h.tail_of_cons.tail_of_cons e he)
  | case8 => exact onError_error (h.unexpected (by simp) _)

theorem readArgumentList_points (h : Stands src ts) : Points src (readArgumentList src ts) := by
  unfold readArgumentList
  split
  · exact onError_ok _
  · split
    · split
      · exact onError_ok _
      · exact (readArguments_points h.tail_of_cons).map
    · exact onError_ok _

theorem readModifier_points (active : ModifierFlags) (h : Stands src ts) :
    Points src (readModifier src active ts) := by
  unfold readModifier
  split
  · exact onError_error (h.atEnd _)
  · next t rest =>
    split
    · next code hk =>
      refine (readArgumentList_points h.tail_of_cons).bind ?_
      rintro ⟨args, n⟩ hargs
      have hn : n ≤ rest.length := (readArgumentList_sound hargs).1
      refine OnError.bind (OnError.mapError fun f _ => ?_) fun m hm => ?_
      · exact (h.reach hn _).pointsInto f.not_atEnd
      · split
        · exact onError_error ((h.reach hn _).pointsInto (by rintro ⟨-, ⟨⟩⟩))
        · exact onError_ok _
    · exact onError_error (h.unexpected List.mem_cons_self _)

theorem readModifiers_points (active : ModifierFlags) (h : Stands src ts) :
    Points src (readModifiers src active ts) := by
  fun_induction readModifiers src active ts with
  | case1 => exact onError_ok _
  | case2 active t rest ht e he =>
    exact onError_error (readModifier_points active h.tail_of_cons e he)
  | case3 active t rest ht m n hm e he ih =>
    exact onError_error (ih (h.tail_of_cons.drop n) e he)
  | case4 => exact onError_ok _
  | case5 => exact onError_ok _

theorem Stands.startsIn_word (h : Stands src ts) (ht : t ∈ ts) {text : String}
    (hk : t.kind = .word text) (cause : ParseCause) :
    ParseError.StartsIn ⟨cause, text, t.span.start⟩ src.text := by
  obtain ⟨cs, hspelled, hcs⟩ := h.placed.spelled t ht
  rw [hk] at hspelled
  cases hspelled
  exact ⟨t.span.stop, by rw [String.toList_ofList]; exact hcs⟩

theorem readFlags_points (h : Stands src ts) : Points src (readFlags src ts) := by
  fun_induction readFlags src ts with
  | case1 => exact onError_ok _
  | case2 => exact onError_error (h.atEnd _)
  | case3 => exact onError_ok _
  | case4 t u rest ht flags hk c hc =>
    exact onError_error ((h.startsIn_word (by simp) hk _).pointsInto (by rintro ⟨-, ⟨⟩⟩))
  | case5 => exact onError_ok _
  | case6 t u rest ht flags hk hc e he ih =>
    exact onError_error (ih h.tail_of_cons.tail_of_cons e he)
  | case7 => exact onError_error (h.unexpected (by simp) _)
  | case8 => exact onError_ok _

theorem readBracket_points {opening : Token} (h : Stands src ts) :
    Points src (readBracket src opening ts) := by
  unfold readBracket
  refine (readOperand_points h).bind ?_
  rintro ⟨op, n₁⟩ hop
  dsimp only
  refine OnError.bind ?_ fun operand _ => ?_
  · refine settleOperand_points h ?_ (List.drop_subset _ _)
    rintro o t rfl
    exact mem_of_readOperand hop
  refine (readModifiers_points _ (h.drop _)).bind ?_
  rintro ⟨modifiers, active, n₃⟩ -
  refine (readFlags_points (h.drop _)).bind ?_
  rintro ⟨force, n₄⟩ -
  dsimp only
  split
  · next t rest hdrop =>
    split
    · exact onError_ok _
    · rw [← hdrop]
      exact onError_error ((h.drop _).missing _)
  · exact onError_error ((h.sublist (List.nil_sublist ts)).missing _)

/-! ## Chains -/

section
variable {unit : List Token → Except ParseError (Rule × Nat)}

theorem readLinks_points (hunit : ∀ ts, Stands src ts → Points src (unit ts))
    (h : Stands src ts) : Points src (readLinks unit ts) := by
  fun_induction readLinks unit ts with
  | case1 => exact onError_ok _
  | case2 => exact onError_ok _
  | case3 t rest join hj e he => exact onError_error (hunit rest h.tail_of_cons e he)
  | case4 t rest join hj r n hr e he ih => exact onError_error (ih (h.tail_of_cons.drop n) e he)
  | case5 => exact onError_ok _

theorem readChain_points (hunit : ∀ ts, Stands src ts → Points src (unit ts))
    (h : Stands src ts) : Points src (readChain src unit ts) := by
  unfold readChain
  refine (hunit ts h).bind ?_
  rintro ⟨first, n⟩ -
  refine (readLinks_points hunit (h.drop n)).bind ?_
  rintro ⟨links, k⟩ -
  exact onError_ok _

end

theorem readUnit_points_of_below {limit depth : Nat} (h : Stands src ts)
    (hbelow : ∀ d, depth = d + 1 → ∀ ts, Stands src ts → Points src (readUnit src limit d ts)) :
    Points src (readUnit src limit depth ts) := by
  unfold readUnit
  split
  · exact onError_error (h.atEnd _)
  · next t rest =>
    split
    · exact (readBracket_points h.tail_of_cons).map
    · exact onError_error ((h.startsIn List.mem_cons_self _).pointsInto (by rintro ⟨-, ⟨⟩⟩))
    · next d _ =>
      refine (readChain_points (hbelow d rfl) h.tail_of_cons).bind ?_
      rintro ⟨r, n⟩ -
      dsimp only
      split
      · next u rest' hdrop =>
        split
        · exact onError_ok _
        · rw [← hdrop]
          exact onError_error ((h.tail_of_cons.drop n).missing _)
      · exact onError_error ((h.sublist (List.nil_sublist _)).missing _)
    · exact onError_error (h.unexpected List.mem_cons_self _)

theorem readUnit_points (limit depth : Nat) : ∀ ts, Stands src ts →
    Points src (readUnit src limit depth ts) := by
  induction depth with
  | zero => exact fun ts h => readUnit_points_of_below h nofun
  | succ depth ih =>
    refine fun ts h => readUnit_points_of_below h fun d hd => ?_
    obtain rfl := Nat.succ.inj hd
    exact ih

/-! ## Whole texts -/

theorem lexeme_error {c : Char} {cs : List Char} {cause : ParseCause}
    (h : lexeme c cs = .error cause) (expected : String) :
    cause ≠ .unexpected expected "end of input" := by
  rintro rfl
  unfold lexeme at h
  dsimp only at h
  repeat' split at h
  all_goals simp at h

theorem faultyText_prefix (c : Char) (cs : List Char) (cause : ParseCause) :
    (faultyText c cs cause).toList <+: c :: cs := by
  unfold faultyText
  split
  · simp only [String.toList_ofList, List.prefix_rfl]
  · rw [String.toList_singleton]
    exact List.prefix_append [c] cs

theorem scanFrom_pointsInto {text cs : List Char} {position stop : Nat}
    (hcs : IsSlice text position stop cs) :
    OnError (·.PointsInto text) (scanFrom position cs) := by
  fun_induction scanFrom position cs with
  | case1 => exact onError_ok _
  | case2 position c rest hc ih =>
    have hrest : IsSlice text position stop ([c] ++ rest) := hcs
    exact ih hrest.back
  | case3 position c rest hc cause hk =>
    obtain ⟨after, hafter⟩ := faultyText_prefix c rest cause
    rw [← hafter] at hcs
    refine onError_error (ParseError.StartsIn.pointsInto ⟨_, hcs.front⟩ ?_)
    rintro ⟨expected, hcause⟩
    exact lexeme_error hk expected hcause
  | case4 => exact onError_ok _
  | case5 position c rest hc kind n hk stop' e he ih =>
    have hsplit : c :: rest = (c :: rest.take n) ++ rest.drop n := by simp
    rw [hsplit] at hcs
    exact onError_error (ih hcs.back e he)

theorem stands_sourceOf {text : String} (hscan : scan text = .ok ts) :
    Stands (sourceOf text ts) ts := by
  have hwhole := IsSlice.whole text.toList
  have hplaced := (placed_of_scanFrom hwhole hscan).1
  refine ⟨hplaced, ?_⟩
  cases hlast : ts.getLast? with
  | none =>
    refine ⟨text.toList, ?_⟩
    simp only [sourceOf, hlast]
    exact hwhole
  | some t =>
    obtain ⟨cs, -, hcs⟩ := hplaced.spelled t (List.mem_of_getLast? hlast)
    simp only [sourceOf, hlast]
    refine hcs.exists_between hwhole ?_
    exact Nat.le_trans (hplaced.start_le (List.mem_of_getLast? hlast)) hcs.stop_le

theorem ofTokens_points {limit : Nat} {text : String} (hscan : scan text = .ok ts) :
    OnError (·.PointsInto text.toList) (ofTokens limit text ts) := by
  have h := stands_sourceOf hscan
  unfold ofTokens
  refine (readChain_points (readUnit_points limit limit) h).bind ?_
  rintro ⟨r, n⟩ -
  dsimp only
  split
  · exact onError_ok _
  · next t rest hdrop =>
    have ht : t ∈ ts := List.drop_subset n ts (hdrop ▸ List.mem_cons_self)
    exact onError_error (h.unexpected ht _)

/-- The error of a text that is no rule points into the text. -/
theorem compile_pointsInto (config : Config) (text : String) :
    OnError (·.PointsInto text.toList) (compile config text) := by
  have hwhole := IsSlice.whole text.toList
  unfold compile
  split
  · next e hscan => exact onError_error (scanFrom_pointsInto hwhole e hscan)
  · exact onError_error (ParseError.StartsIn.pointsInto ⟨_, hwhole⟩ (by rintro ⟨-, ⟨⟩⟩))
  · next ts _ hscan => exact ofTokens_points hscan

end Grammar

end Rulebook
