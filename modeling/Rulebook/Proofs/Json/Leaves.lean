import Rulebook.Json.Basic

/-!
# Leaves of JSON documents

The leaves of a document are the parts of it that are neither arrays nor objects, in order.
`mapLeaves` puts others in their place and keeps the arrays and the objects with their keys;
`mapStrings` does so for the strings alone:

    j.mapStrings f = j   ↔   ∀ s, .string s ∈ j.leaves → f s = s
-/

namespace Rulebook.Json

def IsLeaf : Json → Prop
  | .array _ | .object _ => False
  | _ => True

mutual

/-- The parts that are neither arrays nor objects. -/
def leaves : Json → List Json
  | .array items => itemLeaves items
  | .object members => memberLeaves members
  | leaf => [leaf]

def itemLeaves : List Json → List Json
  | [] => []
  | j :: js => leaves j ++ itemLeaves js

def memberLeaves : List (String × Json) → List Json
  | [] => []
  | (_, j) :: ms => leaves j ++ memberLeaves ms

end

mutual

/-- The document with `f` of each leaf in the place of the leaf. -/
def mapLeaves (f : Json → Json) : Json → Json
  | .array items => .array (mapItems f items)
  | .object members => .object (mapMembers f members)
  | leaf => f leaf

def mapItems (f : Json → Json) : List Json → List Json
  | [] => []
  | j :: js => mapLeaves f j :: mapItems f js

def mapMembers (f : Json → Json) : List (String × Json) → List (String × Json)
  | [] => []
  | (k, j) :: ms => (k, mapLeaves f j) :: mapMembers f ms

end

/-- The document with `f` of each string in the place of the string; keys are kept. -/
def mapStrings (f : String → String) : Json → Json :=
  mapLeaves fun
    | .string s => .string (f s)
    | leaf => leaf

variable {f : Json → Json} {items : List Json} {members : List (String × Json)} {j : Json}

/-- What holds of the leaves, and of arrays and objects if it holds of what is in them, holds of
every document. -/
theorem induct {motive : Json → Prop} (leaf : ∀ j, j.IsLeaf → motive j)
    (array : ∀ items, (∀ j ∈ items, motive j) → motive (.array items))
    (object : ∀ members, (∀ m ∈ members, motive m.2) → motive (.object members)) :
    ∀ j, motive j
  | .null => leaf .null trivial
  | .bool b => leaf (.bool b) trivial
  | .integer n => leaf (.integer n) trivial
  | .decimal x => leaf (.decimal x) trivial
  | .string s => leaf (.string s) trivial
  | .array items => array items fun j _ => induct leaf array object j
  | .object members => object members fun m _ => induct leaf array object m.2
termination_by j => sizeOf j
decreasing_by
  · next hj =>
    have hsize := List.sizeOf_lt_of_mem hj
    simp only [Json.array.sizeOf_spec]
    omega
  · next hm =>
    have hsize := List.sizeOf_lt_of_mem hm
    obtain ⟨k, j⟩ := m
    simp only [Json.object.sizeOf_spec, Prod.mk.sizeOf_spec] at hsize ⊢
    omega

theorem leaves_of_isLeaf (h : j.IsLeaf) : j.leaves = [j] := by
  cases j with
  | array | object => exact h.elim
  | null | bool | integer | decimal | string => rfl

theorem mapLeaves_of_isLeaf (h : j.IsLeaf) : j.mapLeaves f = f j := by
  cases j with
  | array | object => exact h.elim
  | null | bool | integer | decimal | string => rfl

theorem leaves_array (items : List Json) : (array items).leaves = items.flatMap leaves := by
  rw [leaves]
  induction items with
  | nil => rfl
  | cons j js ih => rw [itemLeaves, ih, List.flatMap_cons]

theorem leaves_object (members : List (String × Json)) :
    (object members).leaves = members.flatMap fun m => m.2.leaves := by
  rw [leaves]
  induction members with
  | nil => rfl
  | cons m ms ih => rw [memberLeaves, ih, List.flatMap_cons]

theorem mapItems_eq_map (f : Json → Json) (items : List Json) :
    mapItems f items = items.map (mapLeaves f) := by
  induction items with
  | nil => rfl
  | cons j js ih => rw [mapItems, ih, List.map_cons]

theorem mapMembers_eq_map (f : Json → Json) (members : List (String × Json)) :
    mapMembers f members = members.map fun m => (m.1, m.2.mapLeaves f) := by
  induction members with
  | nil => rfl
  | cons m ms ih => rw [mapMembers, ih, List.map_cons]

theorem mapLeaves_array (items : List Json) :
    (array items).mapLeaves f = .array (items.map (mapLeaves f)) := by
  rw [mapLeaves, mapItems_eq_map]

theorem mapLeaves_object (members : List (String × Json)) :
    (object members).mapLeaves f = .object (members.map fun m => (m.1, m.2.mapLeaves f)) := by
  rw [mapLeaves, mapMembers_eq_map]

theorem mapLeaves_eq_iff {g : Json → Json} :
    j.mapLeaves f = j.mapLeaves g ↔ ∀ leaf ∈ j.leaves, f leaf = g leaf := by
  induction j using induct with
  | leaf j hj =>
    rw [mapLeaves_of_isLeaf hj, mapLeaves_of_isLeaf hj, leaves_of_isLeaf hj,
      List.forall_mem_singleton]
  | array items ih =>
    rw [mapLeaves_array, mapLeaves_array, array.injEq, List.map_inj_left, leaves_array,
      List.forall_mem_flatMap]
    exact forall₂_congr ih
  | object members ih =>
    rw [mapLeaves_object, mapLeaves_object, object.injEq, List.map_inj_left, leaves_object,
      List.forall_mem_flatMap]
    refine forall₂_congr fun m hm => ?_
    rw [Prod.mk.injEq, ih m hm, eq_self_iff_true, true_and]

theorem mapLeaves_id (j : Json) : j.mapLeaves id = j := by
  induction j using induct with
  | leaf j hj => rw [mapLeaves_of_isLeaf hj, id]
  | array items ih => rw [mapLeaves_array, List.map_congr_left ih, List.map_id']
  | object members ih =>
    have hmap : members.map (fun m => (m.1, m.2.mapLeaves id)) = members.map id :=
      List.map_congr_left fun m hm => Prod.ext rfl (ih m hm)
    rw [mapLeaves_object, hmap, List.map_id]

theorem mapLeaves_eq_self_iff : j.mapLeaves f = j ↔ ∀ leaf ∈ j.leaves, f leaf = leaf := by
  have hid := mapLeaves_eq_iff (f := f) (g := id) (j := j)
  rwa [mapLeaves_id] at hid

theorem mapStrings_eq_self_iff {f : String → String} :
    j.mapStrings f = j ↔ ∀ s, .string s ∈ j.leaves → f s = s := by
  rw [mapStrings, mapLeaves_eq_self_iff]
  constructor
  · intro h s hs
    exact string.inj (h (.string s) hs)
  · intro h leaf hleaf
    split
    · next s => rw [h s hleaf]
    · rfl

theorem isLeaf_of_mem_leaves {leaf : Json} (h : leaf ∈ j.leaves) : leaf.IsLeaf := by
  induction j using induct with
  | leaf j hj =>
    rw [leaves_of_isLeaf hj, List.mem_singleton] at h
    exact h ▸ hj
  | array items ih =>
    rw [leaves_array, List.mem_flatMap] at h
    obtain ⟨j, hj, hleaf⟩ := h
    exact ih j hj hleaf
  | object members ih =>
    rw [leaves_object, List.mem_flatMap] at h
    obtain ⟨m, hm, hleaf⟩ := h
    exact ih m hm hleaf

end Rulebook.Json
