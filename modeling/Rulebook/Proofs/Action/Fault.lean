import Rulebook.Action.Parse
import Rulebook.Proofs.Action.Placement
import Rulebook.Proofs.Action.Reading
import Rulebook.Proofs.Grammar.Fault

/-!
# Where errors in instructions point

Reading an instruction fails while its text is cut into pieces, in a rule among its parameters, or
for another reason (`Fault`).  Positions are kept through trimming, marks and pieces, so the
fragment of an error starts at its position in the whole text.  Where a rule ends too early, and
there only, the fragment stops at the position instead.
-/

namespace Rulebook

open Text

/-- The error is one of cutting a part of the text into pieces. -/
def ParseError.FromCut (e : ParseError) (text : List Char) : Prop :=
  ∃ sep start stop cs, sep ≠ [] ∧ IsSlice text start stop cs ∧
    TopLevel.pieces sep start cs = .error e

/-- The error is that of a rule that is a part of the text. -/
def ParseError.FromRule (e : ParseError) (config : Config) (text : List Char) : Prop :=
  ∃ start stop cs e', IsSlice text start stop cs ∧
    Rule.compile config (String.ofList cs) = .error e' ∧ e = e'.moved start

namespace Action

/-- Where an error comes from that is found in a text. -/
inductive Fault (config : Config) (text : List Char) (e : ParseError) : Prop
  | cut : e.FromCut text → Fault config text e
  | rule : e.FromRule config text → Fault config text e
  | other : e.StartsIn text → ¬ e.AtEnd → Fault config text e

/-- Errors of the computation come from the text. -/
abbrev Faults {α : Type} (config : Config) (text : List Char) (x : Except ParseError α) : Prop :=
  OnError (Fault config text) x

variable {config : Config} {text cs : List Char} {nested : Nested} {kind : ActionKind}
  {position stop : Nat}

/-- An error about a slice of the text. -/
theorem Fault.slice (h : IsSlice text position stop cs) {cause : ParseCause}
    (hcause : ∀ expected, cause ≠ .unexpected expected "end of input") :
    Fault config text ⟨cause, String.ofList cs, position⟩ := by
  refine .other ⟨stop, ?_⟩ ?_
  · rw [String.toList_ofList]
    exact h
  · rintro ⟨expected, he⟩
    exact hcause expected he

theorem Fault.unexpected (h : IsSlice text position stop cs) (expected : String) :
    Fault config text (Action.unexpected expected cs position) := by
  refine .slice h fun expected' hcause => ?_
  have hfound := congrArg (·.toList.head?) (ParseCause.unexpected.inj hcause).2
  simp at hfound

theorem pieces_faults {sep : List Char} (h : IsSlice text position stop cs) (hsep : sep ≠ []) :
    Faults config text (TopLevel.pieces sep position cs) :=
  fun _ he => .cut ⟨sep, position, stop, cs, hsep, h, he⟩

theorem trimFrom_slice (h : IsSlice text position stop cs) :
    ∃ stop', IsSlice text (trimFrom position cs).1 stop' (trimFrom position cs).2 := by
  obtain ⟨before, hbefore, -⟩ := exists_trimStart cs
  have hstart : IsSlice text (trimFrom position cs).1 stop (trimStart cs) :=
    h.suffix ⟨before, hbefore.symm⟩
  obtain ⟨after, hafter, -⟩ := exists_trimEnd (trimStart cs)
  have hboth : IsSlice text (trimFrom position cs).1 stop (trimEnd (trimStart cs) ++ after) := by
    rw [← hafter]
    exact hstart
  exact ⟨_, hboth.front⟩

/-! ## Parameters -/

theorem readQuoted_faults {quote : Char} (h : IsSlice text position stop cs) :
    Faults config text (readQuoted quote cs position) := by
  unfold readQuoted
  split
  · exact onError_ok _
  · exact onError_error (.slice h (by rintro - ⟨⟩))

theorem readBracketed_faults (h : IsSlice text position stop cs) :
    Faults config text (readBracketed config cs position) := by
  unfold readBracketed
  split
  · exact onError_ok _
  · split
    · exact onError_ok _
    · next e he => exact onError_error (.rule ⟨position, stop, cs, e, h, he, rfl⟩)

/-- What the reader of nested actions must do. -/
def NestedFaults (config : Config) (text : List Char) (nested : Nested) : Prop :=
  ∀ cs position stop, IsSlice text position stop cs → Faults config text (nested cs position)

theorem readParam_faults (hnested : NestedFaults config text nested)
    (h : IsSlice text position stop cs) :
    Faults config text (readParam config nested cs position) := by
  unfold readParam
  dsimp only
  split
  · exact readQuoted_faults h
  · split
    · exact readBracketed_faults h
    · split
      · exact (hnested _ _ _ h).map
      · exact onError_ok _

theorem readPieces_faults (hnested : NestedFaults config text nested)
    {pieces : List TopLevel.Piece} (h : ∀ p ∈ pieces, p.StandsIn text) :
    Faults config text (readPieces config nested kind pieces) := by
  induction pieces with
  | nil => exact onError_ok _
  | cons p ps ih =>
    obtain ⟨⟨stop, hp⟩, hps⟩ := List.forall_mem_cons.1 h
    obtain ⟨stop', htrim⟩ := trimFrom_slice hp
    rw [readPieces]
    dsimp only
    split
    · exact onError_error (.unexpected hp _)
    · refine (readParam_faults hnested htrim).bind fun param _ => ?_
      exact (ih hps).bind fun params _ => onError_ok _

theorem readParams_faults (hnested : NestedFaults config text nested)
    (h : IsSlice text position stop cs) :
    Faults config text (readParams config nested kind cs position) := by
  unfold readParams
  split
  · exact onError_ok _
  · refine (pieces_faults h (List.cons_ne_nil _ _)).bind fun pieces hpieces => ?_
    exact readPieces_faults hnested
      (TopLevel.standsIn_of_pieces h (List.cons_ne_nil _ _) hpieces)

theorem readParamList_faults (hnested : NestedFaults config text nested)
    (h : IsSlice text position stop cs) :
    Faults config text (readParamList config nested kind cs position) := by
  unfold readParamList
  split
  · exact onError_ok _
  · obtain ⟨stop', htrim⟩ := trimFrom_slice h
    dsimp only
    split
    · exact onError_error (.unexpected htrim _)
    · next inner hinner =>
      rw [between?_eq_some hinner, ← List.singleton_append, ← List.append_assoc] at htrim
      exact readParams_faults hnested htrim.middle

/-! ## Actions -/

theorem readBody_faults (hnested : NestedFaults config text nested)
    (h : IsSlice text position stop cs) :
    Faults config text (readBody config nested cs position) := by
  have hrest := h.suffix (readMarks_suffix cs)
  unfold readBody
  generalize readMarks cs = marks at hrest ⊢
  obtain ⟨negative, rest⟩ := marks
  dsimp only at hrest ⊢
  have hname : IsSlice text (position + (byteLength cs - byteLength rest)) stop
      (rest.takeWhile isWordChar ++ rest.drop (rest.takeWhile isWordChar).length) := by
    rwa [List.prefix_iff_eq_append.1 (List.takeWhile_prefix isWordChar)]
  split
  · exact (onError_error (.unexpected hrest _)).bind nofun
  split
  · exact onError_error (.slice hname.front (by rintro - ⟨⟩))
  · refine (readParamList_faults hnested hname.back).bind fun params _ => ?_
    split
    · exact (onError_error (.slice h (by rintro - ⟨⟩))).bind nofun
    split
    · exact onError_error (.slice h (by rintro - ⟨⟩))
    · exact onError_ok _

theorem read_faults (levels : Nat) : NestedFaults config text (read config levels) := by
  induction levels with
  | zero => exact fun cs position stop h => onError_error (.slice h (by rintro - ⟨⟩))
  | succ levels ih =>
    intro cs position stop h
    rw [read]
    obtain ⟨stop', htrim⟩ := trimFrom_slice h
    dsimp only
    split
    · exact onError_error (.slice h (by rintro - ⟨⟩))
    · exact readBody_faults ih htrim

end Action

namespace Instruction

open Rulebook.Action

variable {config : Config} {text : List Char}

theorem readParts_faults {pieces : List TopLevel.Piece} (h : ∀ p ∈ pieces, p.StandsIn text) :
    Faults config text (readParts config pieces) := by
  induction pieces with
  | nil => exact onError_ok _
  | cons p ps ih =>
    obtain ⟨⟨stop, hp⟩, hps⟩ := List.forall_mem_cons.1 h
    rw [readParts]
    refine (read_faults _ _ _ _ hp).bind fun a _ => ?_
    exact (ih hps).bind fun as _ => onError_ok _

theorem ofChain_onError {P : ParseError → Prop} {as : List Action} {e : ParseError} (h : P e) :
    OnError P (ofChain as e) := by
  unfold ofChain
  split
  · exact onError_ok _
  · exact onError_ok _
  · exact onError_ok _
  · exact onError_error h

theorem parse_faults (config : Config) (text : String) :
    Faults config text.toList (parse config text) := by
  have hwhole := IsSlice.whole text.toList
  unfold parse
  dsimp only
  split
  · have hfault : Fault config text.toList ⟨.empty, String.ofList text.toList, 0⟩ :=
      .slice hwhole (by rintro - ⟨⟩)
    rw [String.ofList_toList] at hfault
    exact onError_error hfault
  · have hsep : ['=', '>'] ≠ [] := List.cons_ne_nil _ _
    refine (pieces_faults hwhole hsep).bind fun parts hparts => ?_
    have hstand := TopLevel.standsIn_of_pieces hwhole hsep hparts
    refine (readParts_faults hstand).bind fun as _ => ofChain_onError ?_
    -- the fourth part, where there is one, stands at its offset, and so does the text from it on
    have hfourth : ∃ b, IsSlice text.toList ((parts[3]?.map (·.offset)).getD 0) b
        (dropBytes ((parts[3]?.map (·.offset)).getD 0) text.toList) := by
      cases hpart : parts[3]? with
      | none => exact ⟨_, hwhole.dropBytes⟩
      | some p =>
        obtain ⟨b, hp⟩ := hstand p (List.mem_of_getElem? hpart)
        exact ⟨_, hp.dropBytes⟩
    obtain ⟨b, hslice⟩ := hfourth
    exact .slice hslice (by rintro - ⟨⟩)

end Instruction

theorem ParseError.FromCut.startsIn {e : ParseError} {text : List Char} (h : e.FromCut text) :
    e.StartsIn text := by
  obtain ⟨sep, start, stop, cs, hsep, hcs, he⟩ := h
  exact TopLevel.pieces_startsIn hcs hsep e he

theorem ParseError.FromRule.pointsInto {e : ParseError} {config : Config} {text : List Char}
    (h : e.FromRule config text) : e.PointsInto text := by
  obtain ⟨start, stop, cs, e', hcs, he, rfl⟩ := h
  have hpoints := Grammar.compile_pointsInto config (String.ofList cs) e' he
  rw [String.toList_ofList] at hpoints
  exact hpoints.moved hcs

/-- An error in a rule has for its fragment the text up to its position when the rule ended there,
and the text from the position on otherwise.  So has an error in an instruction that is found in one
of its rules; every other starts at its position. -/
theorem errors_point_into_text (config : Config) (text : String) :
    (∀ e, Rule.compile config text = .error e → e.PointsInto text.toList) ∧
      ∀ e, Instruction.parse config text = .error e →
        (¬ e.AtEnd → e.StartsIn text.toList) ∧
          (e.AtEnd → (e.FromCut text.toList ∧ e.StartsIn text.toList) ∨
            (e.FromRule config text.toList ∧ e.StopsIn text.toList)) := by
  refine ⟨Grammar.compile_pointsInto config text, fun e he => ?_⟩
  cases Instruction.parse_faults config text e he with
  | cut hcut => exact ⟨fun _ => hcut.startsIn, fun _ => .inl ⟨hcut, hcut.startsIn⟩⟩
  | rule hrule =>
    exact ⟨hrule.pointsInto.2, fun hend => .inr ⟨hrule, hrule.pointsInto.1 hend⟩⟩
  | other hstarts hend => exact ⟨fun _ => hstarts, fun hend' => absurd hend' hend⟩

theorem errors_point_into_text_at_end : ∃ e e' : ParseError,
    Rule.compile {} "[\"é\"" = .error e ∧ e.AtEnd ∧ e.StopsIn "[\"é\"".toList ∧
      Instruction.parse {} "EQ('é', [5]&& )" = .error e' ∧ e'.AtEnd ∧ e'.position = 14 ∧
      ((e'.FromCut "EQ('é', [5]&& )".toList ∧ e'.StartsIn "EQ('é', [5]&& )".toList) ∨
        (e'.FromRule {} "EQ('é', [5]&& )".toList ∧ e'.StopsIn "EQ('é', [5]&& )".toList)) := by
  have hrule : (Rule.compile {} "[\"é\"").map (fun _ => ()) =
      .error ⟨.unexpected "']'" "end of input", "\"é\"", 5⟩ := by decide +kernel
  have hparam : (Instruction.parse {} "EQ('é', [5]&& )").map (fun _ => ()) =
      .error ⟨.unexpected "'[' or '('" "end of input", "&&", 14⟩ := by decide +kernel
  rw [map_error_iff] at hrule hparam
  have hstops := (errors_point_into_text {} _).1 _ hrule
  have hpoints := (errors_point_into_text {} _).2 _ hparam
  exact ⟨_, _, hrule, ⟨_, rfl⟩, hstops.1 ⟨_, rfl⟩, hparam, ⟨_, rfl⟩, rfl, hpoints.2 ⟨_, rfl⟩⟩

end Rulebook
