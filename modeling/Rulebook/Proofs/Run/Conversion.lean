import Rulebook.Action.Parse
import Rulebook.Proofs.Decimal.Read
import Rulebook.Proofs.Decimal.Whole
import Rulebook.Proofs.Run.Property
import Rulebook.Proofs.Value.Literal

/-!
# Values converted to text and back

CONVERTTO writes a value as text, and the text can be converted to the kind of the value again.
Truth values and dates come back as they were.  Of a text, CONVERTTO(integer) reads a decimal and
casts it, so an integer comes back as the decimal nearest to it, held to the range of integers:

    n    →   text   →   min (2 ^ 63 - 1) (near n)

and this is `n` up to `2 ^ 53` (`run_text_and_back`).
-/

namespace Rulebook

open Decimal Script

/-! ## Conversions -/

namespace Value

/-- The conversion to the kind of a value. -/
def ownConversion? : Value → Option Conversion
  | .integer _ => some .integer
  | .bool _ => some .bool
  | .date _ => some .date
  | _ => none

/-- What the text of a value is converted to by the conversion to the kind of the value. -/
inductive Reread : Value → Value → Prop
  | bool (b : Bool) : Reread (.bool b) (.bool b)
  | date (d : Date) : Reread (.date d) (.date d)
  | integer {n m : Int64} : (m.toInt : ℚ) = min (2 ^ 63 - 1) (near n) →
      Reread (.integer n) (.integer m)

/-- Only an integer may come back changed: one that no decimal is, and that is not the greatest. -/
theorem Reread.eq_iff {v w : Value} (h : Reread v w) :
    w = v ↔ ∀ n, v = .integer n → near n = n.toInt ∨ n.toInt = 2 ^ 63 - 1 := by
  cases h with
  | bool | date => exact iff_of_true rfl nofun
  | @integer n m hm =>
    rw [Value.integer.injEq, ← Int64.toInt_inj, ← Int.cast_inj (α := ℚ), hm]
    have hlt : (n.toInt : ℚ) ≤ 2 ^ 63 - 1 := by exact_mod_cast Int.le_sub_one_of_lt n.toInt_lt
    constructor
    · rintro hmin _ ⟨⟩
      rcases le_total (near n) (2 ^ 63 - 1) with hle | hge
      · rw [min_eq_right hle] at hmin
        exact .inl hmin
      · rw [min_eq_left hge] at hmin
        exact .inr (by exact_mod_cast hmin.symm)
    · intro hn
      rcases hn n rfl with hnear | hgreatest
      · rw [hnear, min_eq_right hlt]
      · -- nothing is nearer to the greatest integer than the number after it
        have hself : (n.toInt : ℚ) = 2 ^ 63 - 1 := by rw [hgreatest]; norm_num
        have hnear : (2 ^ 63 - 1 : ℚ) ≤ near n := by
          have hparts : parts (ofInt (2 ^ 63 - 1)) = ⟨false, 2 ^ 52, 11⟩ := by decide +kernel
          rw [near, hgreatest, exact, hparts]
          show (2 ^ 63 - 1 : ℚ) ≤ ((2 ^ 52 : ℕ) : ℚ) * 2 ^ (11 : ℤ)
          norm_num
        rw [hself, min_eq_left hnear]

theorem Reread.eq_of_le {v w : Value} (h : Reread v w)
    (hsmall : ∀ n, v = .integer n → n.toInt.natAbs ≤ 2 ^ 53) : w = v :=
  h.eq_iff.2 fun n hn => .inl (near_eq (hsmall n hn))

/-- A text is converted to an integer by way of a decimal. -/
theorem toInteger?_text (t : String) : (Value.text t).toInteger? =
    ((Value.text t).asDecimal?.filter isWhole).map fun x => .integer (toInt64 x) := rfl

/-- The text of an integer is read as the decimal nearest to it. -/
theorem exists_toInteger?_text (n : Int64) : ∃ m, (Value.text (writeInteger n)).toInteger? =
    some (.integer m) ∧ (m.toInt : ℚ) = min (2 ^ 63 - 1) (near n) := by
  have htrim := trim_display (v := .integer n) trivial
  obtain ⟨x, hread, hfinite, hexact⟩ := readFinite?_of_spells
    (Text.spells_of_int64? (Text.int64?_writeInteger n)) (natAbs_toInt_lt n)
  obtain ⟨k, hk⟩ := exists_int_near n
  have hwhole : isWhole x = true := isWhole_iff.2 ⟨hfinite, k, hexact.trans hk⟩
  have hdecimal : (Value.text (writeInteger n)).asDecimal? = some x := by
    have htoList : (writeInteger n).toList = Text.writeInteger n.toInt := String.toList_ofList
    rw [display, htoList] at htrim
    rw [asDecimal?, htoList, htrim, hread]
  refine ⟨toInt64 x, ?_, ?_⟩
  · rw [toInteger?_text, hdecimal, Option.filter_some, if_pos hwhole]
    rfl
  · have htruncated := exact_of_isWhole hwhole
    have hlow : (-2 ^ 63 : ℚ) ≤ exact x := hexact ▸ (abs_le.1 (abs_exact_ofInt_le n)).1
    rw [htruncated] at hlow
    have hlow' : -2 ^ 63 ≤ (parts x).truncated := by exact_mod_cast hlow
    rw [toInt_toInt64 hfinite, max_eq_right (by omega), near, ← hexact, htruncated]
    norm_num

theorem exists_reread {v : Value} {c : Conversion} (h : v.ownConversion? = some c) :
    v.convert .text = some (.text v.toText) ∧
      ∃ w, (Value.text v.toText).convert c = some w ∧ Reread v w := by
  cases v with
  | bool b =>
    cases h
    cases b <;> exact ⟨rfl, _, rfl, .bool _⟩
  | integer n =>
    cases h
    obtain ⟨m, hm, hvalue⟩ := exists_toInteger?_text n
    exact ⟨rfl, _, hm, .integer hvalue⟩
  | date d =>
    cases h
    have htrim := trim_display (v := .date d) trivial
    have hread : (Value.text d.write).asDate? = some d := by
      rw [display] at htrim
      rw [asDate?, htrim, Date.read?_write]
    refine ⟨rfl, .date d, ?_, .date d⟩
    show ((Value.text d.write).asDate?.map Value.date) = _
    rw [hread]
    rfl
  | null | decimal | text | list | object => cases h

end Value

/-! ## Runs -/

namespace Builtin

variable {kind : ActionKind} {params : List ParamRun} {w : Value} {conversion : Conversion}

theorem outcome_convertTo (c : Call) (h0 : (ParamRun.at kind params 0).value = pure w)
    (hword : Conversion.ofWord? (Text.lowerAscii w.toText) = some conversion) {s : RunState}
    {v : Value} (hv : s.target.convert conversion = some v) :
    outcome ((convertTo c).exec kind params) s =
      (.ok (.completeWith v), { s with target := v }) := by
  unfold convertTo
  rw [outcome_exec_bind, outcome_exec_getValue_pure h0, continued]
  dsimp only
  rw [hword]
  dsimp only
  rw [outcome_exec_bind]
  show continued _ (.ok s.target, s) = _
  rw [continued, hv]
  rfl

end Builtin

namespace Action

variable {en : Engine} {a b : Action} {conversion : Conversion} {depth : Nat} {s : RunState}
  {v : Value}

/-- A CONVERTTO with one of the words for a conversion, done by the engine itself. -/
structure Converts (en : Engine) (conversion : Conversion) (a : Action) : Prop where
  script : (en.registry.handler? .convertTo).map Handler.script = some Builtin.convertTo
  kind : a.kind = .convertTo
  word : ∃ w, a.params = [.literal w] ∧
    Conversion.ofWord? (Text.lowerAscii w.toText) = some conversion
  negative : a.negative = false

theorem Converts.outcome (h : Converts en conversion a) (hdepth : depth ≤ en.maxDepth)
    (hv : s.target.convert conversion = some v) :
    Rulebook.outcome (a.run en depth) s = (.ok (.completeWith v), { s with target := v }) := by
  obtain ⟨handler, hhandler, hscript⟩ := Option.map_eq_some_iff.1 h.script
  obtain ⟨w, hparams, hword⟩ := h.word
  have h0 : (ParamRun.at .convertTo (runParams en a.params (depth + 1)) 0).value = pure w := by
    rw [hparams]
    rfl
  rw [run_eq, if_neg (Nat.not_lt.2 hdepth), h.kind, hhandler]
  dsimp only
  rw [outcome_bind, hscript, Builtin.outcome_convertTo _ h0 hword hv, continued, h.negative]
  rfl

/-- **Converted to text and back, a truth value or a date is what it was, and an integer is the
decimal nearest to it**, held to the range of integers.  So nothing is lost up to `2 ^ 53`, nor
wherever a decimal is the integer. -/
theorem run_text_and_back {c : Conversion} (htext : Converts en .text a)
    (hback : Converts en c b) (hown : s.target.ownConversion? = some c)
    (hdepth : depth ≤ en.maxDepth) : ∃ w,
      Rulebook.outcome (a.run en depth) s = (.ok (.completeWith (.text s.target.toText)),
        { s with target := .text s.target.toText }) ∧
      Rulebook.outcome (b.run en depth) { s with target := .text s.target.toText } =
        (.ok (.completeWith w), { s with target := w }) ∧
      Value.Reread s.target w ∧
      (w = s.target ↔
        ∀ n, s.target = .integer n → near n = n.toInt ∨ n.toInt = 2 ^ 63 - 1) ∧
      ((∀ n, s.target = .integer n → n.toInt.natAbs ≤ 2 ^ 53) → w = s.target) := by
  obtain ⟨hwritten, w, hw, hreread⟩ := Value.exists_reread hown
  exact ⟨w, htext.outcome hdepth hwritten, hback.outcome hdepth hw, hreread, hreread.eq_iff,
    hreread.eq_of_le⟩

theorem converts_of_parse_text : ∃ a, Instruction.parse {} "CONVERTTO(text)" = .ok (.action a) ∧
    Converts { registry := .builtin, today := .earliest } .text a :=
  ⟨_, rfl, rfl, rfl, ⟨.text "text", rfl, by decide +kernel⟩, rfl⟩

theorem converts_of_parse_integer :
    ∃ a, Instruction.parse {} "CONVERTTO(integer)" = .ok (.action a) ∧
      Converts { registry := .builtin, today := .earliest } .integer a :=
  ⟨_, rfl, rfl, rfl, ⟨.text "integer", rfl, by decide +kernel⟩, rfl⟩

/-- -42 is written as text and read back. -/
theorem run_text_and_back_minus :
    let en : Engine := { registry := .builtin, today := .earliest }
    let s : RunState := { target := .integer (-42) }
    ∃ a b, Instruction.parse {} "CONVERTTO(text)" = .ok (.action a) ∧
      Instruction.parse {} "CONVERTTO(integer)" = .ok (.action b) ∧
      Rulebook.outcome (a.run en 0) s = (.ok (.completeWith (.text "-42")),
        { target := .text "-42" }) ∧
      Rulebook.outcome (b.run en 0) { target := .text "-42" } =
        (.ok (.completeWith (.integer (-42))), s) := by
  intro en s
  obtain ⟨a, ha, htext⟩ := converts_of_parse_text
  obtain ⟨b, hb, hback⟩ := converts_of_parse_integer
  have hdepth : 0 ≤ Engine.maxDepth { registry := .builtin, today := .earliest } := Nat.zero_le _
  obtain ⟨w, hwrite, hread, -, -, hsmall⟩ := run_text_and_back htext hback (s := s) rfl hdepth
  have hw : w = .integer (-42) := hsmall fun n hn => by
    cases hn
    decide
  have htoText : s.target.toText = "-42" := by decide +kernel
  rw [htoText] at hwrite hread
  rw [hw] at hread
  exact ⟨a, b, ha, hb, hwrite, hread⟩

/-- `2 ^ 53 + 1` comes back as `2 ^ 53`. -/
theorem run_text_and_back_rounded :
    let en : Engine := { registry := .builtin, today := .earliest }
    ∃ a b, Instruction.parse {} "CONVERTTO(text)" = .ok (.action a) ∧
      Instruction.parse {} "CONVERTTO(integer)" = .ok (.action b) ∧
      Rulebook.outcome (a.run en 0) { target := .integer 9007199254740993 } =
        (.ok (.completeWith (.text "9007199254740993")), { target := .text "9007199254740993" }) ∧
      Rulebook.outcome (b.run en 0) { target := .text "9007199254740993" } =
        (.ok (.completeWith (.integer 9007199254740992)),
          { target := .integer 9007199254740992 }) := by
  intro en
  obtain ⟨a, ha, htext⟩ := converts_of_parse_text
  obtain ⟨b, hb, hback⟩ := converts_of_parse_integer
  have hwritten : Value.writeInteger 9007199254740993 = "9007199254740993" := by decide +kernel
  have hcast : ((Value.text "9007199254740993").asDecimal?.filter isWhole).map toInt64 =
      some 9007199254740992 := by decide +kernel
  have hread : (Value.text "9007199254740993").toInteger? = some (.integer 9007199254740992) := by
    obtain ⟨x, hx, hvalue⟩ := Option.map_eq_some_iff.1 hcast
    rw [Value.toInteger?_text, hx, Option.map_some, hvalue]
  refine ⟨a, b, ha, hb, htext.outcome (Nat.zero_le _) ?_, hback.outcome (Nat.zero_le _) hread⟩
  exact congrArg (fun t => some (Value.text t)) hwritten

end Action

end Rulebook
