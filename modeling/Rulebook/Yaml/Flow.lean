import Rulebook.Document.Field
import Rulebook.Yaml.Scalar

/-!
# Flow collections of YAML

Lists in brackets and records in braces, over any number of lines.  A comma may follow the last
member, a value may be left out, and an item of a list may be a record of one entry without braces.
A key is on one line with its colon.
-/

namespace Rulebook.Yaml

/-- Drops blanks, line breaks and comments. -/
def skipFlow (comment : Bool) : List Char → List Char
  | [] => []
  | c :: r =>
    if c = '\n' then skipFlow false r
    else if comment || isBlank c then skipFlow comment r
    else if c = '#' then skipFlow true r
    else c :: r

/-- A scalar that is a key on one line, up to the text after its colon. -/
def flowKey? (start : List Char) (d : Document) (r : List Char) : Option (String × List Char) :=
  match skipFlow false r with
  | ':' :: r =>
    if (start.take (start.length - r.length)).contains '\n' then none
    else d.text?.map fun k => (k, r)
  | _ => none

/-- Starts with a colon. -/
def atColon (cs : List Char) : Bool := cs.head? == some ':'

mutual

/-- A node that begins here. -/
def flowNode : Nat → Reader Document
  | 0, _ => none
  | fuel + 1, cs =>
    match cs with
    | '[' :: r => (flowItems fuel r).map fun (ds, r) => (.list false ds, r)
    | '{' :: r => (flowEntries fuel r).map fun (es, r) => (.record es, r)
    | cs => match quoted? cs with
      | some q => q.map fun (s, r) => (.text (String.ofList s), r)
      | none =>
        if isPlainStart true cs then do
          let (s, r) ← flowPlain (cs.length + 1) cs
          if atColon r && !atGap (r.drop 1) then none else some (.word (String.ofList s), r)
        else none

/-- The value of a key, which may be left out. -/
def flowValue : Nat → Reader Document
  | 0, _ => none
  | fuel + 1, cs =>
    let cs := skipFlow false cs
    if cs.head?.any fun c => c == ',' || c == ']' || c == '}' then some (.word "", cs)
    else flowNode fuel cs

/-- The items of a list up to its end. -/
def flowItems : Nat → Reader (List Document)
  | 0, _ => none
  | fuel + 1, cs =>
    match skipFlow false cs with
    | ']' :: r => some ([], r)
    | cs => do
      let (d, r) ← flowNode fuel cs
      let (d, r) ←
        if atColon (skipFlow false r) then do
          let (k, r) ← flowKey? cs d r
          let (v, r) ← flowValue fuel r
          some (Document.record [(k, v)], r)
        else some (d, r)
      match skipFlow false r with
      | ',' :: r => (flowItems fuel r).map fun (ds, r) => (d :: ds, r)
      | ']' :: r => some ([d], r)
      | _ => none

/-- The entries of a record up to its end. -/
def flowEntries : Nat → Reader (List (String × Document))
  | 0, _ => none
  | fuel + 1, cs =>
    match skipFlow false cs with
    | '}' :: r => some ([], r)
    | cs => do
      let (d, r) ← flowNode fuel cs
      let (e, r) ←
        if atColon (skipFlow false r) then do
          let (k, r) ← flowKey? cs d r
          let (v, r) ← flowValue fuel r
          some ((k, v), r)
        else d.text?.map fun k => ((k, Document.word ""), r)
      match skipFlow false r with
      | ',' :: r => (flowEntries fuel r).map fun (es, r) => (e :: es, r)
      | '}' :: r => some ([e], r)
      | _ => none

end

/-- A flow collection that begins here. -/
def flowCollection (cs : List Char) : Option (Document × List Char) :=
  flowNode (2 * cs.length + 2) cs

end Rulebook.Yaml
