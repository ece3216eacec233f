import Rulebook.Rule.Check

/-!
# Values looked up in tables

The columns of tables are filled by insertions.  A column is known when one of them named it, up to
the case of letters, and a hit when it holds a value that is loosely equal to the one under test.
`indb` goes through its columns up to the first that is unknown or a hit, so for every run of
insertions (`check_inTable_of_insertions`)

    passes                 there is a hit, and every column before it is known
    is an error            there is an unknown column, and none before it is a hit
    fails                  otherwise
-/

namespace Rulebook

/-! ## One property until another -/

section Until

variable {α : Type} {P Q P' Q' : α → Prop} {x : α} {xs : List α}

/-- Some element has `P`, and every element before it `Q`. -/
def Until (Q P : α → Prop) (xs : List α) : Prop :=
  ∃ before x after, xs = before ++ x :: after ∧ P x ∧ ∀ y ∈ before, Q y

theorem not_until_nil : ¬ Until Q P [] := by
  rintro ⟨before, x, after, hsplit, -⟩
  simp at hsplit

theorem until_cons : Until Q P (x :: xs) ↔ P x ∨ Q x ∧ Until Q P xs := by
  constructor
  · rintro ⟨_ | ⟨y, before⟩, z, after, hsplit, hz, hbefore⟩
    · obtain ⟨rfl, -⟩ := List.cons.inj hsplit
      exact .inl hz
    · obtain ⟨rfl, rfl⟩ := List.cons.inj hsplit
      rw [List.forall_mem_cons] at hbefore
      exact .inr ⟨hbefore.1, before, z, after, rfl, hz, hbefore.2⟩
  · rintro (hx | ⟨hx, before, z, after, rfl, hz, hbefore⟩)
    · exact ⟨[], x, xs, rfl, hx, nofun⟩
    · exact ⟨x :: before, z, after, rfl, hz, List.forall_mem_cons.2 ⟨hx, hbefore⟩⟩

theorem until_congr (hQ : ∀ x, Q x ↔ Q' x) (hP : ∀ x, P x ↔ P' x) :
    Until Q P xs ↔ Until Q' P' xs := by
  obtain rfl : Q = Q' := funext fun x => propext (hQ x)
  obtain rfl : P = P' := funext fun x => propext (hP x)
  exact Iff.rfl

/-- The first element with `P` may be taken. -/
theorem until_first : Until Q P xs ↔ Until (fun x => Q x ∧ ¬ P x) P xs := by
  -- an element with `P` is the first one; on the others both sides say `Q`
  induction xs with
  | nil => exact iff_of_false not_until_nil not_until_nil
  | cons x xs ih =>
    rw [until_cons, until_cons, ih]
    by_cases hx : P x
    · exact iff_of_true (.inl hx) (.inl hx)
    · simp only [hx, false_or, not_false_eq_true, and_true]

end Until

/-! ## Tables after insertions -/

/-- Values put into a column. -/
structure Insertion where
  column : Column
  values : List Value

/-- The same column, up to the case of ASCII letters. -/
def Column.Same (c d : Column) : Prop :=
  Text.sameWord c.table d.table = true ∧ Text.sameWord c.column d.column = true

instance (c d : Column) : Decidable (c.Same d) := inferInstanceAs (Decidable (_ ∧ _))

namespace Tables

variable {c d : Column} {vs : List Value} {v w : Value} {ts : Tables} {is js : List Insertion}

/-- The tables that a run of insertions makes of others. -/
def insertAll (ts : Tables) (is : List Insertion) : Tables :=
  is.foldl (fun ts i => ts.insert i.column i.values) ts

/-- Some insertion named the column. -/
def Known (is : List Insertion) (c : Column) : Prop := ∃ i ∈ is, i.column.Same c

/-- Some insertion put the value into the column. -/
def Holds (is : List Insertion) (c : Column) (w : Value) : Prop :=
  ∃ i ∈ is, i.column.Same c ∧ w ∈ i.values

/-- The column is known, and holds a value that is loosely equal to `v`. -/
def Hit (is : List Insertion) (v : Value) (c : Column) : Prop :=
  ∃ w, Holds is c w ∧ Value.equalLoose false w v = true

theorem Hit.known (h : Hit is v c) : Known is c := by
  obtain ⟨_, ⟨i, hi, hsame, -⟩, -⟩ := h
  exact ⟨i, hi, hsame⟩

theorem known_append : Known (is ++ js) c ↔ Known is c ∨ Known js c := by
  simp only [Known, List.mem_append, or_and_right, exists_or]

theorem holds_append : Holds (is ++ js) c w ↔ Holds is c w ∨ Holds js c w := by
  simp only [Holds, List.mem_append, or_and_right, exists_or]

theorem key_eq_key_iff : key c = key d ↔ c.Same d := by
  simp [key, Column.Same, Text.lowerAscii, Text.sameWord, String.ofList_inj]

theorem lookup_insertInto (k j : Column) (vs : List Value) (columns : List (Column × List Value)) :
    (insertInto k vs columns).lookup j =
      if k = j then some ((columns.lookup j).getD [] ++ vs) else columns.lookup j := by
  have hcons : ∀ i ws (rest : List (Column × List Value)),
      List.lookup j ((i, ws) :: rest) = if i = j then some ws else rest.lookup j := by
    intro i ws rest
    rw [List.lookup_cons]
    by_cases hij : i = j
    · simp [hij]
    · simp [hij, beq_eq_false_iff_ne.2 (Ne.symm hij)]
  induction columns with
  | nil => exact hcons k vs []
  | cons entry rest ih =>
    obtain ⟨i, ws⟩ := entry
    unfold insertInto
    split
    · next hik =>
      rw [hcons, hcons, hik]
      split <;> rfl
    · next hik =>
      -- the first entry has another name, so the values come after it
      rw [hcons, hcons, ih]
      by_cases hij : i = j
      · rw [if_pos hij, if_neg fun hkj => hik (hij.trans hkj.symm), if_pos hij]
      · rw [if_neg hij, if_neg hij]

theorem values?_insert : (ts.insert c vs).values? d =
    if c.Same d then some ((ts.values? d).getD [] ++ vs) else ts.values? d := by
  rw [insert, values?, lookup_insertInto]
  simp only [key_eq_key_iff, values?]

/-- The tables hold what the insertions put into their columns, and have no other columns. -/
structure FilledBy (ts : Tables) (is : List Insertion) : Prop where
  known : ∀ c, (ts.values? c).isSome = true ↔ Known is c
  holds : ∀ c w, w ∈ (ts.values? c).getD [] ↔ Holds is c w

theorem filledBy_nil : FilledBy {} [] where
  known c := by simp [Known, values?]
  holds c w := by simp [Holds, values?]

/-- What one insertion adds. -/
theorem FilledBy.insert (h : ts.FilledBy is) (i : Insertion) :
    (ts.insert i.column i.values).FilledBy (is ++ [i]) where
  known c := by
    have hone : Known [i] c ↔ i.column.Same c := by simp [Known]
    rw [known_append, ← h.known, hone, values?_insert]
    split
    · next hsame => simp [hsame]
    · next hsame => simp [hsame]
  holds c w := by
    have hone : Holds [i] c w ↔ i.column.Same c ∧ w ∈ i.values := by simp [Holds]
    rw [holds_append, ← h.holds, hone, values?_insert]
    split
    · next hsame => simp [hsame]
    · next hsame => simp [hsame]

/-- What a run of insertions adds. -/
theorem FilledBy.insertAll (h : ts.FilledBy is) (js : List Insertion) :
    (ts.insertAll js).FilledBy (is ++ js) := by
  induction js generalizing ts is with
  | nil => rwa [List.append_nil]
  | cons j js ih =>
    have hrest := ih (h.insert j)
    rwa [List.append_assoc, List.singleton_append] at hrest

theorem filledBy_insertAll (is : List Insertion) : (insertAll {} is).FilledBy is :=
  filledBy_nil.insertAll is

/-! ### Columns of filled tables -/

theorem FilledBy.contains_of_unknown (h : ts.FilledBy is) (hc : ¬ Known is c) :
    ts.contains c v = .error ("unknown column " ++ c.text) := by
  rw [← h.known, Bool.not_eq_true, Option.isSome_eq_false_iff, Option.isNone_iff_eq_none] at hc
  rw [contains, hc]

theorem FilledBy.contains_of_known (h : ts.FilledBy is) (hc : Known is c) :
    ∃ found, ts.contains c v = .ok found ∧ (found = true ↔ Hit is v c) := by
  obtain ⟨vs, hvs⟩ := Option.isSome_iff_exists.1 ((h.known c).2 hc)
  refine ⟨vs.any fun w => Value.equalLoose false w v, by rw [contains, hvs], ?_⟩
  rw [List.any_eq_true]
  have hholds := h.holds c
  rw [hvs, Option.getD_some] at hholds
  exact exists_congr fun w => and_congr_left fun _ => hholds w

theorem FilledBy.contains_eq_true_iff (h : ts.FilledBy is) :
    ts.contains c v = .ok true ↔ Hit is v c := by
  by_cases hc : Known is c
  · obtain ⟨found, hfound, hhit⟩ := h.contains_of_known (v := v) hc
    rw [hfound, ← hhit, Except.ok.injEq]
  · rw [h.contains_of_unknown hc]
    exact iff_of_false nofun fun hhit => hc hhit.known

theorem FilledBy.contains_eq_false_iff (h : ts.FilledBy is) :
    ts.contains c v = .ok false ↔ Known is c ∧ ¬ Hit is v c := by
  by_cases hc : Known is c
  · obtain ⟨found, hfound, hhit⟩ := h.contains_of_known (v := v) hc
    rw [hfound, ← hhit, Except.ok.injEq, Bool.not_eq_true]
    exact (and_iff_right hc).symm
  · rw [h.contains_of_unknown hc]
    exact iff_of_false nofun fun hmiss => hc hmiss.1

theorem FilledBy.contains_eq_error_iff (h : ts.FilledBy is) {reason : String} :
    ts.contains c v = .error reason ↔ ¬ Known is c ∧ reason = "unknown column " ++ c.text := by
  by_cases hc : Known is c
  · obtain ⟨found, hfound, -⟩ := h.contains_of_known (v := v) hc
    rw [hfound]
    exact iff_of_false nofun fun herror => herror.1 hc
  · rw [h.contains_of_unknown hc, Except.error.injEq, eq_comm]
    exact (and_iff_right hc).symm

end Tables

/-! ## Looking up -/

namespace Modifier

variable {l : Lookup} {v : Value} {columns : List Column} {e : EvalError}

theorem foundIn_eq_true_iff : foundIn l v columns = .ok true ↔
    Until (fun c => l.contains c v = .ok false) (fun c => l.contains c v = .ok true) columns := by
  induction columns with
  | nil => exact iff_of_false nofun not_until_nil
  | cons c columns ih =>
    rw [until_cons, ← ih, foundIn]
    split
    · next h => simp [h]
    · next h => simp [h]
    · next h => simp [h]

theorem foundIn_eq_error_iff : foundIn l v columns = .error e ↔
    Until (fun c => l.contains c v = .ok false)
      (fun c => ∃ reason, l.contains c v = .error reason ∧ e = .lookup reason) columns := by
  induction columns with
  | nil => exact iff_of_false nofun not_until_nil
  | cons c columns ih =>
    rw [until_cons, ← ih, foundIn]
    split
    · next h => simp [h, eq_comm]
    · next h => simp [h]
    · next h => simp [h]

/-- A search that neither finds the value nor is an error has gone through all columns. -/
theorem foundIn_eq_false_iff : foundIn l v columns = .ok false ↔
    ¬ foundIn l v columns = .ok true ∧
      ¬ ∃ reason, foundIn l v columns = .error (.lookup reason) := by
  cases hfound : foundIn l v columns with
  | error e =>
    obtain ⟨_, _, _, _, ⟨reason, -, rfl⟩, -⟩ := foundIn_eq_error_iff.1 hfound
    simp
  | ok found => cases found <;> simp

theorem checkTables_eq_pass_iff :
    checkTables (some l) columns v = .ok .pass ↔ foundIn l v columns = .ok true := by
  unfold checkTables
  dsimp only
  split <;> simp [*]

theorem checkTables_eq_error_iff :
    checkTables (some l) columns v = .error e ↔ foundIn l v columns = .error e := by
  unfold checkTables
  dsimp only
  split <;> simp [*]

theorem checkTables_eq_fail_iff : checkTables (some l) columns v = .ok (.fail .notInLookup
      ("not found in " ++ Text.join ", " (columns.map Column.text))) ↔
    foundIn l v columns = .ok false := by
  unfold checkTables
  dsimp only
  split <;> simp [*]

open Tables

variable {is : List Insertion} {s : CheckSetting}

theorem foundIn_true_iff_of_insertions :
    foundIn (insertAll {} is).toLookup v columns = .ok true ↔
      Until (Known is) (Hit is v) columns := by
  have hfilled := filledBy_insertAll is
  rw [foundIn_eq_true_iff, until_first (P := Hit is v)]
  exact until_congr (fun _ => hfilled.contains_eq_false_iff) fun _ => hfilled.contains_eq_true_iff

theorem foundIn_error_iff_of_insertions :
    foundIn (insertAll {} is).toLookup v columns = .error e ↔
      Until (fun c => Known is c ∧ ¬ Hit is v c)
        (fun c => ¬ Known is c ∧ e = .lookup ("unknown column " ++ c.text)) columns := by
  have hfilled := filledBy_insertAll is
  rw [foundIn_eq_error_iff]
  refine until_congr (fun _ => hfilled.contains_eq_false_iff) fun c => ?_
  constructor
  · rintro ⟨reason, hreason, rfl⟩
    obtain ⟨hc, rfl⟩ := hfilled.contains_eq_error_iff.1 hreason
    exact ⟨hc, rfl⟩
  · rintro ⟨hc, rfl⟩
    exact ⟨_, hfilled.contains_of_unknown hc, rfl⟩

theorem exists_foundIn_error_iff_of_insertions :
    (∃ reason, foundIn (insertAll {} is).toLookup v columns = .error (.lookup reason)) ↔
      Until (fun c => ¬ Hit is v c) (fun c => ¬ Known is c) columns := by
  simp only [foundIn_error_iff_of_insertions]
  rw [until_first]
  constructor
  · rintro ⟨reason, before, c, after, hsplit, ⟨hc, -⟩, hbefore⟩
    exact ⟨before, c, after, hsplit, hc,
      fun d hd => ⟨(hbefore d hd).2, not_not_intro (hbefore d hd).1⟩⟩
  · rintro ⟨before, c, after, hsplit, hc, hbefore⟩
    exact ⟨_, before, c, after, hsplit, ⟨hc, rfl⟩,
      fun d hd => ⟨Classical.not_not.1 (hbefore d hd).2, (hbefore d hd).1⟩⟩

/-- **A lookup means what the insertions say.**  `indb` passes when some column is a hit and every
column before it is known, and is an error when some column is unknown and none before it is a hit;
the error names the first unknown column.  Otherwise it fails. -/
theorem check_inTable_of_insertions (hlookup : s.lookup = some (insertAll {} is).toLookup)
    (hv : v.isNull = false) :
    (check (.inTable columns) s v = .ok .pass ↔ Until (Known is) (Hit is v) columns) ∧
      ((∃ reason, check (.inTable columns) s v = .error (.lookup reason)) ↔
        Until (fun c => ¬ Hit is v c) (fun c => ¬ Known is c) columns) ∧
      (∀ e, check (.inTable columns) s v = .error e ↔ Until (fun c => Known is c ∧ ¬ Hit is v c)
        (fun c => ¬ Known is c ∧ e = .lookup ("unknown column " ++ c.text)) columns) ∧
      (check (.inTable columns) s v = .ok (.fail .notInLookup
          ("not found in " ++ Text.join ", " (columns.map Column.text))) ↔
        ¬ Until (Known is) (Hit is v) columns ∧
          ¬ Until (fun c => ¬ Hit is v c) (fun c => ¬ Known is c) columns) := by
  have hcheck : check (.inTable columns) s v =
      checkTables (some (insertAll {} is).toLookup) columns v := by
    rw [check, hv, ← hlookup]
    rfl
  rw [hcheck, checkTables_eq_pass_iff, checkTables_eq_fail_iff, foundIn_eq_false_iff]
  simp only [checkTables_eq_error_iff]
  rw [foundIn_true_iff_of_insertions, exists_foundIn_error_iff_of_insertions]
  exact ⟨Iff.rfl, Iff.rfl, fun e => foundIn_error_iff_of_insertions, Iff.rfl⟩

/-- Of three columns the second holds the number 2; the third is not known. -/
theorem check_inTable_of_insertions_before_unknown :
    let is : List Insertion := [⟨⟨"users", "email"⟩, [.text "a@x.io"]⟩,
      ⟨⟨"Orders", "Id"⟩, [.integer 1]⟩, ⟨⟨"orders", "ID"⟩, [.integer 2]⟩]
    let s : CheckSetting := ⟨false, false, some (insertAll {} is).toLookup⟩
    check (.inTable [⟨"Users", "Email"⟩, ⟨"orders", "id"⟩, ⟨"no", "where"⟩]) s (.text " 2") =
      .ok .pass := by
  intro is s
  have hemail : Known is ⟨"Users", "Email"⟩ := ⟨_, List.mem_cons_self, by decide⟩
  have hid : Hit is (.text " 2") ⟨"orders", "id"⟩ :=
    ⟨.integer 2, ⟨⟨⟨"orders", "ID"⟩, [.integer 2]⟩, by simp [is], by decide, List.mem_cons_self⟩,
      by decide +kernel⟩
  have hlookup : s.lookup = some (insertAll {} is).toLookup := rfl
  apply (check_inTable_of_insertions hlookup rfl).1.2
  refine ⟨[⟨"Users", "Email"⟩], ⟨"orders", "id"⟩, [⟨"no", "where"⟩], rfl, hid, ?_⟩
  intro c hc
  rw [List.mem_singleton.1 hc]
  exact hemail

end Modifier

end Rulebook
