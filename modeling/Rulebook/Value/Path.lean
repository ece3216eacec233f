import Rulebook.Value.Basic
import Rulebook.Text.Split

/-!
# Paths into objects

A property is written as names joined by dots; empty names are skipped.  Reading follows the names
through objects.  Writing makes objects out of nulls on the way, and fails on any other value:

    write names w v = .ok v'  →  at? names v' = some w
-/

namespace Rulebook.Value

/-- The names in a property text. -/
def path (property : String) : List String :=
  ((Text.pieces '.' property.toList).filter (· ≠ [])).map String.ofList

/-- The value under a path. -/
def at? : List String → Value → Option Value
  | [], v => some v
  | name :: rest, .object fields => (Members.get? name fields).bind (at? rest)
  | _ :: _, _ => none

/-- The value under a property text. -/
def get? (v : Value) (property : String) : Option Value := v.at? (path property)

/-- Why a path cannot be written. -/
inductive PathError where
  /-- The rest of the path meets a value that is neither an object nor null. -/
  | notAnObject (rest : List String) (kind : Kind)
  | noName
deriving DecidableEq, Repr

def PathError.message : PathError → String
  | .notAnObject rest kind => "cannot set '" ++ Text.join "." rest ++ "' on a " ++ kind.name
  | .noName => "empty property name"

/-- The fields of an object or of null, which has none. -/
def fields? : Value → Option (List (String × Value))
  | .null => some []
  | .object fields => some fields
  | _ => none

/-- Null becomes an object without fields. -/
def orObject : Value → Value
  | .null => .object []
  | v => v

/-- The value with `w` under a path. -/
def write : List String → Value → Value → Except PathError Value
  | names, w, v =>
    match v.fields? with
    | none => .error (.notAnObject names v.kind)
    | some fields =>
      match names with
      | [] => .error .noName
      | [name] => .ok (.object (Members.insert name w fields))
      | name :: rest =>
        match write rest w ((Members.get? name fields).getD .null) with
        | .ok inner => .ok (.object (Members.insert name inner fields))
        | .error e => .error e

end Rulebook.Value
