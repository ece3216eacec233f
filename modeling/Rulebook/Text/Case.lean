import Rulebook.Text.CaseTable

/-!
# Letter case

Two notions of case.  The letters of keywords are ASCII: `sameWord` ignores their case.  The letters
of texts are Unicode's: `upper` and `lower` are its full mappings, where one character may become
several and a capital sigma at the end of a word becomes `ς`:

    lower (w ++ ['Σ']) = lower w ++ ['ς']        for a word `w` that ends in a cased letter
-/

namespace Rulebook.Text

/-! ## ASCII -/

/-- Lower case of the ASCII letters; all else is kept. -/
def lowerAscii (s : String) : String := String.ofList (s.toList.map Char.toLower)

/-- Equal up to the case of ASCII letters. -/
def sameWord (a b : String) : Bool := a.toList.map Char.toLower == b.toList.map Char.toLower

def isLetter (c : Char) : Bool := ('a' ≤ c && c ≤ 'z') || ('A' ≤ c && c ≤ 'Z')

def isDigit (c : Char) : Bool := '0' ≤ c && c ≤ '9'

/-- ASCII letters, digits and the underscore. -/
def isWordChar (c : Char) : Bool := isLetter c || isDigit c || c == '_'

/-! ## Full case mapping -/

/-- The shift of code point `n`; the runs are in increasing order. -/
def shiftOf (n : Nat) : List CaseRun → Int
  | [] => 0
  | r :: rs =>
    if n < r.first then 0
    else if n ≤ r.last then (if (n - r.first) % r.step = 0 then r.offset else 0)
    else shiftOf n rs

def inRanges (n : Nat) : List (Nat × Nat) → Bool
  | [] => false
  | (lo, hi) :: rs => if n < lo then false else n ≤ hi || inRanges n rs

def mapChar (runs : List CaseRun) (expansions : List (Nat × List Nat)) (c : Char) : List Char :=
  match expansions.lookup c.toNat with
  | some ns => ns.map Char.ofNat
  | none => [Char.ofNat (c.toNat + shiftOf c.toNat runs).toNat]

def upperChar (c : Char) : List Char := mapChar upperRuns upperExpansions c

def lowerChar (c : Char) : List Char := mapChar lowerRuns lowerExpansions c

def isCased (c : Char) : Bool := inRanges c.toNat casedRanges

def isCaseIgnorable (c : Char) : Bool := inRanges c.toNat caseIgnorableRanges

/-- The first character that is not case-ignorable exists and is cased. -/
def meetsCased : List Char → Bool
  | [] => false
  | c :: cs => if isCaseIgnorable c then meetsCased cs else isCased c

/-- Lower case of the text that follows `before`, which is held in reverse. -/
def lowerAfter (before : List Char) : List Char → List Char
  | [] => []
  | c :: cs =>
    let here := if c = 'Σ' then
        (if meetsCased before && !meetsCased cs then ['ς'] else ['σ'])
      else lowerChar c
    here ++ lowerAfter (c :: before) cs

def upper (s : String) : String := String.ofList (s.toList.flatMap upperChar)

def lower (s : String) : String := String.ofList (lowerAfter [] s.toList)

end Rulebook.Text
