import Rulebook.Date.Period
import Rulebook.Run.Basic
import Rulebook.Run.Conversion

/-!
# The actions of the engine

A comparison with one parameter is of the target with it, one with two of the first with the second.
Actions done outside the engine have no handler here.
-/

namespace Rulebook.Builtin

open Script

/-! ## Comparisons -/

/-- The two sides of a comparison. -/
def operands (c : Call) : Script (Value × Value) :=
  if c.count = 2 then do
    let a ← getValue 0
    let b ← getValue 1
    return (a, b)
  else do
    let a ← getTarget
    let b ← getValue 0
    return (a, b)

def comparison (holds : Ordering → Bool) (verb : String) (c : Call) : Script Result := do
  let (a, b) ← operands c
  return .ofBool (holds (Value.compareLoose false a b))
    ("'" ++ a.display ++ "' " ++ verb ++ " '" ++ b.display ++ "' does not hold")

def between (c : Call) : Script Result := do
  let three := c.count = 3
  let subject ← if three then getValue 0 else getTarget
  let first := if three then 1 else 0
  let low ← getValue first
  let high ← getValue (first + 1)
  let inside := Value.compareLoose false subject low != .lt &&
    Value.compareLoose false subject high != .gt
  return .ofBool inside
    ("'" ++ subject.display ++ "' is not between '" ++ low.display ++ "' and '" ++ high.display ++
      "'")

def getNumber (c : Call) (index : Nat) : Script Float := do
  let v ← getValue index
  match v.asDecimal? with
  | some x => return x
  | none => .raise (.failed c.kind (.notANumber v.display))

def length (c : Call) : Script Result := do
  let n := (← getTarget).size
  let low ← getNumber c 0
  let high ← if c.count = 2 then getNumber c 1 else pure low
  if low ≤ Decimal.ofNat n && Decimal.ofNat n ≤ high then
    return .completeWith (.integer (Int64.ofNat n))
  else
    return .fail ("length " ++ Text.showNatural n ++ " outside " ++
      Decimal.plain.write low ++ "..=" ++ Decimal.plain.write high)

/-- The alternatives that a value stands for. -/
def alternatives : Value → List Value
  | .list items => items
  | v => [v]

def oneOf (c : Call) : Script Result := do
  let vs ← values c.count
  let target ← getTarget
  return .ofBool ((vs.flatMap alternatives).any fun v => Value.equalLoose false target v)
    ("'" ++ target.display ++ "' is not in the list")

def check (_ : Call) : Script Result := do
  let r ← runParam 0
  return { r with value := none }

/-! ## The target -/

def setProperty : Script Result := do
  let names := Value.path (← getValue 0).toText
  let v ← getValue 1
  let target ← getTarget
  match Value.write names v target with
  | .ok target =>
    putTarget target
    return .completeWith v
  | .error e =>
    putTarget target.orObject
    .raise (.invalidTarget .set (.path e))

def setWhole : Script Result := do
  let v ← getValue 0
  putTarget v
  return .completeWith v

def set (c : Call) : Script Result := if c.count = 2 then setProperty else setWhole

def get (_ : Call) : Script Result := do
  let property := (← getValue 0).toText
  match (← getTarget).get? property with
  | some v => return .completeWith v
  | none => return .fail ("no property '" ++ property ++ "'")

def list (c : Call) : Script Result := do return .completeWith (.list (← values c.count))

/-- Runs the first parameter on each item: the items after it, and the failures. -/
def eachFrom (index : Nat) : List Value → Script (List Value × List String)
  | [] => return ([], [])
  | item :: items => do
    let (r, item) ← runParamWith 0 item
    let (items, failures) ← eachFrom (index + 1) items
    let failed := "item " ++ Text.showNatural index ++ ": " ++ r.failure.getD ""
    return (item :: items, if r.isFail then failed :: failures else failures)

def eachItem (items : List Value) : Script Result := do
  let (items, failures) ← eachFrom 0 items
  putTarget (.list items)
  return if failures.isEmpty then .complete else .fail (Text.join "; " failures)

def each (_ : Call) : Script Result := do
  match ← getTarget with
  | .list items => eachItem items
  | .null => eachItem []
  | v => .raise (.invalidTarget .each (.notAList v.kind))

def convertTo (_ : Call) : Script Result := do
  let word := Text.lowerAscii (← getValue 0).toText
  match Conversion.ofWord? word with
  | none => .raise (.failed .convertTo (.unknownConversion word))
  | some conversion =>
    let target ← getTarget
    match target.convert conversion with
    | some v =>
      putTarget v
      return .completeWith v
    | none => return .fail ("cannot convert '" ++ target.display ++ "' to " ++ word)

/-! ## Branches -/

def ifttt (c : Call) : Script Result := do
  let condition ← runParam 0
  if condition.isComplete then runParam 1
  else if c.count = 3 then runParam 2
  else return condition

/-- Tries cases of two parameters from `index` on; `otherwise` when none applies. -/
def switchFrom (otherwise : Script Result) (index : Nat) : Nat → Script Result
  | 0 => otherwise
  | cases + 1 => do
    let expected ← getValue index
    let target ← getTarget
    if Value.equalLoose false target expected then runParam (index + 1)
    else switchFrom otherwise (index + 2) cases

def switch (c : Call) : Script Result :=
  let otherwise := if c.count % 2 = 1 then runParam (c.count - 1) else return .noAction
  switchFrom otherwise 0 (c.count / 2)

def stop (_ : Call) : Script Result := do
  haltRun
  return .complete

/-! ## Dates -/

def today (c : Call) : Script Result := return .completeWith (.date c.today)

/-- The date a date action starts from. -/
def baseDate (c : Call) : Script Date :=
  if c.count = 0 then return c.today
  else do
    let v ← getValue 0
    match v.asDate? with
    | some d => return d
    | none => .raise (.failed c.kind (.notADate v.display))

/-- What a date action computes from a date and the month in which fiscal years end. -/
def periodDate? : ActionKind → Option (Date → Nat → Date)
  | .endOfMonth => some fun d _ => d.endOfMonth
  | .endOfQuarter => some fun d _ => d.endOfQuarter
  | .endOfFiscalYear => some Date.endOfFiscalYear
  | .firstOfMonth => some fun d _ => d.firstWorkingDayOfMonth
  | .firstOfQuarter => some fun d _ => d.firstWorkingDayOfQuarter
  | .firstOfFiscalYear => some Date.firstWorkingDayOfFiscalYear
  | .lastOfMonth => some fun d _ => d.lastWorkingDayOfMonth
  | .lastOfQuarter => some fun d _ => d.lastWorkingDayOfQuarter
  | .lastOfFiscalYear => some Date.lastWorkingDayOfFiscalYear
  | _ => none

def calendar (c : Call) : Script Result := do
  let d ← baseDate c
  match periodDate? c.kind with
  | some f => return .completeWith (.date (f d c.config.fiscalYearEnd))
  | none => .raise (.failed c.kind .notACalendarAction)

/-! ## The registry -/

def script? : ActionKind → Option (Call → Script Result)
  | .gt => some (comparison (· == .gt) ">")
  | .lt => some (comparison (· == .lt) "<")
  | .eq => some (comparison (· == .eq) "=")
  | .gte => some (comparison (· != .lt) ">=")
  | .lte => some (comparison (· != .gt) "<=")
  | .bw => some between
  | .len => some length
  | .oneOf => some oneOf
  | .check => some check
  | .set => some set
  | .get => some get
  | .list => some list
  | .each => some each
  | .convertTo => some convertTo
  | .ifttt => some ifttt
  | .switch => some switch
  | .stop => some stop
  | .today => some today
  | .endOfMonth | .endOfQuarter | .endOfFiscalYear | .firstOfMonth | .firstOfQuarter
  | .firstOfFiscalYear | .lastOfMonth | .lastOfQuarter | .lastOfFiscalYear => some calendar
  | .attach | .email | .wait | .workflow | .zip | .goto => none

end Rulebook.Builtin

namespace Rulebook

/-- The handlers of the engine's own actions. -/
def Registry.builtin : Registry :=
  ⟨fun kind => (Builtin.script? kind).map fun script => { script }⟩

end Rulebook
