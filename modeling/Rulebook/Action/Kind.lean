import Rulebook.Text.Case
import Rulebook.Text.Space
import Rulebook.Text.Numeral

/-!
# Kinds of actions

The actions an instruction can name, how many parameters each takes, and which of its parameters
must themselves be actions.  Names are recognised in any case:

    ofName? k.name = some k
-/

namespace Rulebook

inductive ActionKind where
  | gt | lt | eq | gte | lte | bw | len | oneOf
  | check | set | get | list | each | convertTo | ifttt | switch | stop | today
  | endOfMonth | endOfQuarter | endOfFiscalYear
  | firstOfMonth | firstOfQuarter | firstOfFiscalYear
  | lastOfMonth | lastOfQuarter | lastOfFiscalYear
  | attach | email | wait | workflow | zip | goto
deriving DecidableEq, Repr

namespace ActionKind

def all : List ActionKind :=
  [.gt, .lt, .eq, .gte, .lte, .bw, .len, .oneOf, .check, .set, .get, .list, .each, .convertTo,
    .ifttt, .switch, .stop, .today, .endOfMonth, .endOfQuarter, .endOfFiscalYear, .firstOfMonth,
    .firstOfQuarter, .firstOfFiscalYear, .lastOfMonth, .lastOfQuarter, .lastOfFiscalYear, .attach,
    .email, .wait, .workflow, .zip, .goto]

def name : ActionKind → String
  | .gt => "gt"
  | .lt => "lt"
  | .eq => "eq"
  | .gte => "gte"
  | .lte => "lte"
  | .bw => "bw"
  | .len => "len"
  | .oneOf => "in"
  | .check => "CHECK"
  | .set => "SET"
  | .get => "GET"
  | .list => "LIST"
  | .each => "EACH"
  | .convertTo => "CONVERTTO"
  | .ifttt => "IFTTT"
  | .switch => "SWITCH"
  | .stop => "END"
  | .today => "Today"
  | .endOfMonth => "EOM"
  | .endOfQuarter => "EOQ"
  | .endOfFiscalYear => "EOFY"
  | .firstOfMonth => "FWDOM"
  | .firstOfQuarter => "FWDOQ"
  | .firstOfFiscalYear => "FWDOFY"
  | .lastOfMonth => "LWDOM"
  | .lastOfQuarter => "LWDOQ"
  | .lastOfFiscalYear => "LWDOFY"
  | .attach => "ATTACH"
  | .email => "EMAIL"
  | .wait => "WAIT"
  | .workflow => "WF"
  | .zip => "ZIP"
  | .goto => "GOTO"

/-- The kind with this name, in any case and with white space around it ignored. -/
def ofName? (text : String) : Option ActionKind :=
  all.find? fun k => Text.sameWord k.name (Text.strip text)

/-- Least number of parameters. -/
def least : ActionKind → Nat
  | .gt | .lt | .eq | .gte | .lte | .len | .oneOf | .check | .set | .get | .each | .convertTo => 1
  | .bw | .ifttt | .switch => 2
  | _ => 0

/-- Greatest number of parameters, if there is a limit. -/
def most : ActionKind → Option Nat
  | .gt | .lt | .eq | .gte | .lte | .len | .set => some 2
  | .bw | .ifttt => some 3
  | .check | .get | .each | .convertTo => some 1
  | .stop | .today => some 0
  | .endOfMonth | .endOfQuarter | .endOfFiscalYear | .firstOfMonth | .firstOfQuarter
  | .firstOfFiscalYear | .lastOfMonth | .lastOfQuarter | .lastOfFiscalYear => some 1
  | _ => none

/-- Whether the action can have `n` parameters. -/
def admits (k : ActionKind) (n : Nat) : Bool :=
  k.least ≤ n && match k.most with
    | some m => n ≤ m
    | none => true

/-- The allowed counts in words. -/
def countText (k : ActionKind) : String :=
  match k.most with
  | some m =>
    if k.least = m then Text.showNatural m
    else Text.showNatural k.least ++ "-" ++ Text.showNatural m
  | none => "at least " ++ Text.showNatural k.least

/-- Indexes of the parameters that must be actions, of `n` parameters. -/
def actionPlaces (k : ActionKind) (n : Nat) : List Nat :=
  match k with
  | .each => [0]
  | .ifttt => (List.range n).filter (1 ≤ ·)
  | .switch =>
    (List.range n).filter (· % 2 = 1) ++ (if n % 2 = 1 then [n - 1] else [])
  | _ => []

/-- Actions done outside the engine. -/
def isExternal : ActionKind → Bool
  | .attach | .email | .wait | .workflow | .zip | .goto => true
  | _ => false

end ActionKind

end Rulebook
