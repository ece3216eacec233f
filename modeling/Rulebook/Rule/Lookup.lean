import Rulebook.Rule.Modifier
import Rulebook.Value.Order

/-!
# Lookups

A lookup tells whether a value occurs in a column of a table, or why it cannot tell.  `Tables` holds
columns in memory: names are matched up to ASCII case, and inserting under a known name adds values.

    (ts.insert table column vs).values? c = some (old ++ vs)       when `c` is that column
-/

namespace Rulebook

structure Lookup where
  contains : Column → Value → Except String Bool

/-- Columns in memory. -/
structure Tables where
  columns : List (Column × List Value) := []

namespace Tables

/-- The name under which a column is kept. -/
def key (c : Column) : Column := ⟨Text.lowerAscii c.table, Text.lowerAscii c.column⟩

def insertInto (k : Column) (vs : List Value) :
    List (Column × List Value) → List (Column × List Value)
  | [] => [(k, vs)]
  | (j, ws) :: rest => if j = k then (j, ws ++ vs) :: rest else (j, ws) :: insertInto k vs rest

/-- Adds values to a column. -/
def insert (ts : Tables) (c : Column) (vs : List Value) : Tables :=
  ⟨insertInto (key c) vs ts.columns⟩

def values? (ts : Tables) (c : Column) : Option (List Value) := ts.columns.lookup (key c)

def contains (ts : Tables) (c : Column) (v : Value) : Except String Bool :=
  match ts.values? c with
  | some vs => .ok (vs.any fun w => Value.equalLoose false w v)
  | none => .error ("unknown column " ++ c.text)

def toLookup (ts : Tables) : Lookup := ⟨ts.contains⟩

end Tables

end Rulebook
