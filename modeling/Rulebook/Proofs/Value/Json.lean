import Rulebook.Proofs.Date.Text
import Rulebook.Proofs.Decimal.Finite
import Rulebook.Proofs.Json.Leaves
import Rulebook.Value.Json

/-!
# Documents read as values and written again

Reading and writing keep the arrays and the objects of a document, so all is up to its leaves.

**Main results**

* `ofJson_toJson_ofJson`: a value that was read from a document is read back from the document that
  is written of it.
* `toJson_ofJson`: the document written of such a value is the one it was read from, but for the
  strings that read as dates; they are respelled.  Numbers that are no 64-bit integers are left out
  here: a greater one comes back as a decimal.
-/

namespace Rulebook

/-- The numbers that a document can hold: whole ones of 64 bits, signed or not, and finite
decimals. -/
structure Json.IsDocument (j : Json) : Prop where
  integers : ∀ n, .integer n ∈ j.leaves → -0x8000000000000000 ≤ n ∧ n < 0x10000000000000000
  decimals : ∀ x, .decimal x ∈ j.leaves → Decimal.isFinite x = true

/-- All numbers in the document are signed integers of 64 bits. -/
structure Json.HoldsInt64s (j : Json) : Prop where
  integers : ∀ n, .integer n ∈ j.leaves → -0x8000000000000000 ≤ n ∧ n < 0x8000000000000000
  noDecimals : ∀ x, .decimal x ∉ j.leaves

namespace Value

open Text

variable {j : Json}

/-! ## Through arrays and objects -/

theorem ofJson_array (items : List Json) : ofJson (.array items) = .list (items.map ofJson) := by
  have hitems : ofItems items = items.map ofJson := by
    induction items with
    | nil => rfl
    | cons j js ih => exact congrArg (ofJson j :: ·) ih
  exact congrArg Value.list hitems

theorem ofJson_object (members : List (String × Json)) :
    ofJson (.object members) = .object (members.map fun m => (m.1, ofJson m.2)) := by
  have hmembers : ofMembers members = members.map fun m => (m.1, ofJson m.2) := by
    induction members with
    | nil => rfl
    | cons m ms ih => exact congrArg ((m.1, ofJson m.2) :: ·) ih
  exact congrArg Value.object hmembers

theorem toJson_list (items : List Value) : toJson (.list items) = .array (items.map toJson) := by
  have hitems : toItems items = items.map toJson := by
    induction items with
    | nil => rfl
    | cons v vs ih => exact congrArg (toJson v :: ·) ih
  exact congrArg Json.array hitems

theorem toJson_object (fields : List (String × Value)) :
    toJson (.object fields) = .object (fields.map fun f => (f.1, toJson f.2)) := by
  have hfields : toMembers fields = fields.map fun f => (f.1, toJson f.2) := by
    induction fields with
    | nil => rfl
    | cons f fs ih => exact congrArg ((f.1, toJson f.2) :: ·) ih
  exact congrArg Json.object hfields

/-- What is written is the document with its leaves read and written. -/
theorem toJson_ofJson_eq (j : Json) :
    toJson (ofJson j) = j.mapLeaves fun leaf => toJson (ofJson leaf) := by
  induction j using Json.induct with
  | leaf j hj => rw [Json.mapLeaves_of_isLeaf hj]
  | array items ih =>
    rw [ofJson_array, toJson_list, List.map_map, Json.mapLeaves_array]
    exact congrArg Json.array (List.map_congr_left ih)
  | object members ih =>
    rw [ofJson_object, toJson_object, List.map_map, Json.mapLeaves_object]
    exact congrArg Json.object (List.map_congr_left fun m hm => congrArg (m.1, ·) (ih m hm))

/-- Other leaves that read as the same values make no difference. -/
theorem ofJson_mapLeaves {f : Json → Json} (h : ∀ leaf ∈ j.leaves, ofJson (f leaf) = ofJson leaf) :
    ofJson (j.mapLeaves f) = ofJson j := by
  induction j using Json.induct with
  | leaf j hj =>
    rw [Json.leaves_of_isLeaf hj, List.forall_mem_singleton] at h
    rw [Json.mapLeaves_of_isLeaf hj, h]
  | array items ih =>
    rw [Json.leaves_array, List.forall_mem_flatMap] at h
    rw [Json.mapLeaves_array, ofJson_array, ofJson_array, List.map_map]
    exact congrArg Value.list (List.map_congr_left fun j hj => ih j hj (h j hj))
  | object members ih =>
    rw [Json.leaves_object, List.forall_mem_flatMap] at h
    rw [Json.mapLeaves_object, ofJson_object, ofJson_object, List.map_map]
    exact congrArg Value.object
      (List.map_congr_left fun m hm => congrArg (m.1, ·) (ih m hm (h m hm)))

/-! ## Leaves -/

theorem ofJson_string (s : String) :
    ofJson (.string s) = (Date.read? s.toList).elim (.text s) .date := by
  rw [ofJson]
  cases Date.read? s.toList <;> rfl

theorem ofJson_integer (n : Int) :
    ofJson (.integer n) = (fitInt64 n).elim (.decimal (Decimal.ofInt n)) .integer := by
  rw [ofJson]
  cases fitInt64 n <;> rfl

/-- Beyond the signed integers of 64 bits there are but the unsigned ones. -/
theorem isFinite_ofInt {n : Int} (hlow : -0x8000000000000000 ≤ n) (hhigh : n < 0x10000000000000000)
    (h : fitInt64 n = none) : Decimal.isFinite (Decimal.ofInt n) = true := by
  have hn : 0x8000000000000000 ≤ n := by
    unfold fitInt64 at h
    split at h
    · cases h
    · omega
  obtain ⟨m, rfl⟩ := Int.eq_ofNat_of_zero_le (show 0 ≤ n by omega)
  exact Decimal.isFinite_ofNat (by omega) (by omega)

theorem toJson_decimal {x : Float} (h : Decimal.isFinite x = true) :
    toJson (.decimal x) = .decimal x :=
  if_pos h

/-- Any date of the calendar, in years of other than four digits too. -/
theorem ofJson_toJson_date (d : Date) : ofJson (toJson (.date d)) = .date d := by
  show ofJson (.string d.write) = _
  rw [ofJson_string, d.read?_write, Option.elim_some]

theorem ofJson_toJson_leaf (hdoc : j.IsDocument) {leaf : Json} (h : leaf ∈ j.leaves) :
    ofJson (toJson (ofJson leaf)) = ofJson leaf := by
  cases leaf with
  | null | bool => rfl
  | integer n =>
    cases hfit : fitInt64 n with
    | some i =>
      rw [ofJson_integer, hfit, Option.elim_some]
      show ofJson (.integer i.toInt) = _
      rw [toInt_of_fitInt64 hfit, ofJson_integer, hfit, Option.elim_some]
    | none =>
      obtain ⟨hlow, hhigh⟩ := hdoc.integers n h
      rw [ofJson_integer, hfit, Option.elim_none, toJson_decimal (isFinite_ofInt hlow hhigh hfit)]
      rfl
  | decimal x => exact congrArg ofJson (toJson_decimal (hdoc.decimals x h))
  | string s =>
    cases hread : Date.read? s.toList with
    | some d => rw [ofJson_string, hread, Option.elim_some, ofJson_toJson_date]
    | none =>
      have htext : ofJson (.string s) = .text s := by
        rw [ofJson_string, hread, Option.elim_none]
      rw [htext]
      exact htext
  | array | object => exact (Json.isLeaf_of_mem_leaves h).elim

/-- **A value that came from JSON is read back from its JSON**, however deep it is. -/
theorem ofJson_toJson_ofJson (h : j.IsDocument) : ofJson (toJson (ofJson j)) = ofJson j := by
  rw [toJson_ofJson_eq]
  exact ofJson_mapLeaves fun leaf hleaf => ofJson_toJson_leaf h hleaf

/-- The greatest integer that a document can hold is a decimal, and three dates are read: before the
year 0, after the year 9999, and one that is written otherwise than it was. -/
theorem ofJson_toJson_ofJson_nested :
    let j : Json := .object [("days", .array [.string "-0044-03-15", .string "+10000-01-01",
      .string " 2024-1-5"]), ("most", .integer 0xFFFFFFFFFFFFFFFF)]
    let v : Value := .object [("days", .list [.date ⟨-44, 3, 15, by decide⟩,
      .date ⟨10000, 1, 1, by decide⟩, .date ⟨2024, 1, 5, by decide⟩]),
      ("most", .decimal (Decimal.ofInt 0xFFFFFFFFFFFFFFFF))]
    j.IsDocument ∧ ofJson j = v ∧ ofJson (toJson v) = v := by
  intro j v
  have hdoc : j.IsDocument := by
    constructor <;> simp [j, Json.leaves, Json.memberLeaves, Json.itemLeaves]
  have hread : ofJson j = v := rfl
  have hback := ofJson_toJson_ofJson hdoc
  rw [hread] at hback
  exact ⟨hdoc, hread, hback⟩

/-! ## Documents written back -/

theorem toJson_ofJson_string (s : String) :
    toJson (ofJson (.string s)) = .string (Date.respell s) := by
  cases hread : Date.read? s.toList with
  | some d =>
    rw [ofJson_string, hread, Date.respell_of_read hread]
    rfl
  | none =>
    rw [ofJson_string, hread, Date.respell_of_none hread]
    rfl

theorem toJson_ofJson_integer {n : Int} (hlow : -0x8000000000000000 ≤ n)
    (hhigh : n < 0x8000000000000000) : toJson (ofJson (.integer n)) = .integer n := by
  have hfit : fitInt64 n = some (Int64.ofInt n) := if_pos ⟨hlow, hhigh⟩
  rw [ofJson_integer, hfit, Option.elim_some]
  exact congrArg Json.integer (toInt_of_fitInt64 hfit)

/-- **A document comes back with its dates respelled**, and nothing else in it is altered.  So it
comes back unchanged when every string in it that reads as a date is what is written of that date,
and only then. -/
theorem toJson_ofJson (h : j.HoldsInt64s) :
    toJson (ofJson j) = j.mapStrings Date.respell ∧
      (toJson (ofJson j) = j ↔
        ∀ s, .string s ∈ j.leaves → ∀ d, Date.read? s.toList = some d → s = d.write) := by
  have hrespelled : toJson (ofJson j) = j.mapStrings Date.respell := by
    rw [toJson_ofJson_eq, Json.mapStrings, Json.mapLeaves_eq_iff]
    intro leaf hleaf
    cases leaf with
    | null | bool => rfl
    | integer n =>
      obtain ⟨hlow, hhigh⟩ := h.integers n hleaf
      exact toJson_ofJson_integer hlow hhigh
    | decimal x => exact absurd hleaf (h.noDecimals x)
    | string s => exact toJson_ofJson_string s
    | array | object => exact (Json.isLeaf_of_mem_leaves hleaf).elim
  refine ⟨hrespelled, ?_⟩
  rw [hrespelled, Json.mapStrings_eq_self_iff]
  exact forall₂_congr fun s _ => Date.respell_eq_self_iff

/-- Of two dates and a text in a nested list the one date is written with another zero. -/
theorem toJson_ofJson_nested :
    let j : Json := .object [("due", .array [.string "2024-1-05", .string "-0044-03-15"]),
      ("note", .array [.string "2024-13-01", .integer (-7), .null])]
    let k : Json := .object [("due", .array [.string "2024-01-05", .string "-0044-03-15"]),
      ("note", .array [.string "2024-13-01", .integer (-7), .null])]
    j.HoldsInt64s ∧ toJson (ofJson j) = k := by
  intro j k
  have hints : j.HoldsInt64s := by
    constructor <;> simp [j, Json.leaves, Json.memberLeaves, Json.itemLeaves]
  have hk : j.mapStrings Date.respell = k := by
    have hdue : Date.respell "2024-1-05" = "2024-01-05" := by decide +kernel
    have hday : Date.respell "-0044-03-15" = "-0044-03-15" := by decide +kernel
    have hnote : Date.respell "2024-13-01" = "2024-13-01" := by decide +kernel
    simp [j, k, Json.mapStrings, Json.mapLeaves, Json.mapMembers, Json.mapItems, hdue, hday, hnote]
  exact ⟨hints, (toJson_ofJson hints).1.trans hk⟩

/-- The month of a date may be written with one digit. -/
theorem toJson_ofJson_ne :
    (Json.string "2024-1-5").HoldsInt64s ∧
      toJson (ofJson (.string "2024-1-5")) ≠ .string "2024-1-5" := by
  have hrespell : Date.respell "2024-1-5" ≠ "2024-1-5" := by decide +kernel
  rw [toJson_ofJson_string]
  constructor
  · constructor <;> simp [Json.leaves]
  · exact fun heq => hrespell (Json.string.inj heq)

end Value

end Rulebook
