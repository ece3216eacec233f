import Rulebook.Proofs.Nesting.Step
import Rulebook.Proofs.Run.Blind
import Rulebook.Proofs.Run.Parameters
import Rulebook.Proofs.Step.Negation

/-!
# EACH as a map

EACH runs its body on the items of the target, one by one, and none of these runs is told of the
others: the items become what the body makes of each alone, or, where it fails on one, nothing
changes (`run_each`).  So a body that leaves every item as it is leaves a list as it is
(`run_each_unchanged`); null is read as the list of no items, and becomes that list.
-/

namespace Rulebook

/-! ## Runs on items -/

namespace Builtin

open Script RunM

variable {kind : ActionKind} {params : List ParamRun}

/-- What the first parameter shows of an item. -/
def alone (kind : ActionKind) (params : List ParamRun) (item : Value) :
    Except RunError Result × Value := shown (ParamRun.at kind params 0).run item

/-- The body returns Fail for the item. -/
def FailsOn (alone : Value → Except RunError Result × Value) (item : Value) : Prop :=
  ∃ r, (alone item).1 = .ok r ∧ r.kind = .fail

theorem failsOn_iff {alone : Value → Except RunError Result × Value} {item : Value} {r : Result}
    (h : (alone item).1 = .ok r) : FailsOn alone item ↔ r.kind = .fail := by
  simp [FailsOn, h]

theorem shown_runParamWith (item v : Value) : shown ((runParamWith 0 item).exec kind params) v =
    ((alone kind params item).1.map fun r => (r, (alone kind params item).2), v) := by
  have hwith := shown_withTarget item v (ParamRun.at kind params 0).run
  unfold shown at hwith ⊢
  rw [runParamWith, outcome_exec_runWith]
  generalize outcome (withTarget item _) _ = ran at hwith ⊢
  obtain ⟨x | x, t⟩ := ran <;> exact hwith

variable {item v : Value} {items : List Value} {index : Nat}

theorem shown_eachFrom_cons_error (h : ∀ i, (ParamRun.at kind params i).Blind) {e : RunError}
    (hitem : (alone kind params item).1 = .error e) :
    shown ((eachFrom index (item :: items)).exec kind params) v = (.error e, v) := by
  rw [eachFrom, shown_exec_bind h, shown_runParamWith, hitem]
  rfl

/-- What is shown of a list from what is shown of its tail. -/
theorem shown_eachFrom_cons (h : ∀ i, (ParamRun.at kind params i).Blind) (index : Nat)
    (items : List Value) (v : Value) {r : Result} (hitem : (alone kind params item).1 = .ok r) :
    ∃ failure, shown ((eachFrom index (item :: items)).exec kind params) v =
      shownThen (fun rest => pure ((alone kind params item).2 :: rest.1,
          if r.isFail then failure :: rest.2 else rest.2))
        (shown ((eachFrom (index + 1) items).exec kind params) v) := by
  refine ⟨"item " ++ Text.showNatural index ++ ": " ++ r.failure.getD "", ?_⟩
  rw [eachFrom, shown_exec_bind h, shown_runParamWith, hitem]
  exact shown_exec_bind h _ _ v

/-- The first item on which the body fails ends the run. -/
theorem shown_eachFrom_error (h : ∀ i, (ParamRun.at kind params i).Blind)
    {before after : List Value} {e : RunError}
    (hbefore : ∀ x ∈ before, ∃ r, (alone kind params x).1 = .ok r)
    (hitem : (alone kind params item).1 = .error e) :
    shown ((eachFrom index (before ++ item :: after)).exec kind params) v = (.error e, v) := by
  induction before generalizing index with
  | nil => exact shown_eachFrom_cons_error h hitem
  | cons x before ih =>
    obtain ⟨⟨r, hx⟩, hbefore⟩ := List.forall_mem_cons.1 hbefore
    obtain ⟨failure, hcons⟩ := shown_eachFrom_cons h index (before ++ item :: after) v hx
    rw [List.cons_append, hcons, ih hbefore]
    rfl

/-- Where the body fails on no item, there are failures if one of its results is Fail. -/
theorem shown_eachFrom_ok (h : ∀ i, (ParamRun.at kind params i).Blind) (index : Nat) (v : Value)
    (hitems : ∀ x ∈ items, ∃ r, (alone kind params x).1 = .ok r) :
    ∃ failures, shown ((eachFrom index items).exec kind params) v =
        (.ok (items.map fun x => (alone kind params x).2, failures), v) ∧
      (failures ≠ [] ↔ ∃ x ∈ items, FailsOn (alone kind params) x) := by
  induction items generalizing index with
  | nil => exact ⟨[], rfl, by simp⟩
  | cons item items ih =>
    obtain ⟨⟨r, hr⟩, hitems⟩ := List.forall_mem_cons.1 hitems
    obtain ⟨failures, hshown, hfailures⟩ := ih (index + 1) hitems
    obtain ⟨failure, hcons⟩ := shown_eachFrom_cons h index items v hr
    rw [hshown] at hcons
    refine ⟨_, hcons, ?_⟩
    rw [List.exists_mem_cons_iff, failsOn_iff hr, ← hfailures]
    by_cases hfail : r.kind = .fail <;> simp [Result.isFail, hfail]

/-! ## The script -/

theorem shown_each_list (c : Call) (items : List Value) :
    shown ((each c).exec kind params) (.list items) =
      shown ((eachItem items).exec kind params) (.list items) := rfl

theorem shown_each_error (h : ∀ i, (ParamRun.at kind params i).Blind) {before after : List Value}
    {e : RunError} (c : Call) (hbefore : ∀ x ∈ before, ∃ r, (alone kind params x).1 = .ok r)
    (hitem : (alone kind params item).1 = .error e) :
    shown ((each c).exec kind params) (.list (before ++ item :: after)) =
      (.error e, .list (before ++ item :: after)) := by
  rw [shown_each_list, eachItem, shown_exec_bind h, shown_eachFrom_error h hbefore hitem]
  rfl

theorem shown_each_ok (h : ∀ i, (ParamRun.at kind params i).Blind) (c : Call)
    (hitems : ∀ x ∈ items, ∃ r, (alone kind params x).1 = .ok r) :
    ∃ r, shown ((each c).exec kind params) (.list items) =
        (.ok r, .list (items.map fun x => (alone kind params x).2)) ∧
      (r = .complete ∨ r.kind = .fail) ∧
      (r.kind = .fail ↔ ∃ x ∈ items, FailsOn (alone kind params) x) := by
  obtain ⟨failures, hshown, hfailures⟩ :=
    shown_eachFrom_ok h 0 (.list items) hitems
  rw [shown_each_list, eachItem, shown_exec_bind h, hshown, ← hfailures]
  refine ⟨_, rfl, ?_⟩
  cases failures with
  | nil => exact ⟨.inl rfl, nofun, fun h => absurd rfl h⟩
  | cons failure failures => exact ⟨.inr rfl, fun _ => List.cons_ne_nil _ _, fun _ => rfl⟩

/-- An item on which the body fails has a first one. -/
theorem first_error {α β : Type} (f : α → Except RunError β) (xs : List α) :
    (∀ x ∈ xs, ∃ b, f x = .ok b) ∨ ∃ before x after e, xs = before ++ x :: after ∧
      (∀ y ∈ before, ∃ b, f y = .ok b) ∧ f x = .error e := by
  induction xs with
  | nil => exact .inl nofun
  | cons x xs ih =>
    cases hx : f x with
    | error e => exact .inr ⟨[], x, xs, e, rfl, nofun, hx⟩
    | ok b =>
      rcases ih with hall | ⟨before, y, after, e, rfl, hbefore, hy⟩
      · exact .inl (List.forall_mem_cons.2 ⟨⟨b, hx⟩, hall⟩)
      · exact .inr ⟨x :: before, y, after, e, rfl, List.forall_mem_cons.2 ⟨⟨b, hx⟩, hbefore⟩, hy⟩

/-- After an error the target is what it was, whatever it was. -/
theorem shown_each_kept (h : ∀ i, (ParamRun.at kind params i).Blind) {c : Call} {e : RunError}
    (hshown : (shown ((each c).exec kind params) v).1 = .error e) :
    (shown ((each c).exec kind params) v).2 = v := by
  cases v with
  | list items =>
    rcases first_error (fun x => (alone kind params x).1) items with
      hitems | ⟨before, x, after, e', rfl, hbefore, hx⟩
    · obtain ⟨r, hok, -⟩ := shown_each_ok h c hitems
      rw [hok] at hshown
      cases hshown
    · rw [shown_each_error h c hbefore hx]
  | null => cases hshown
  | bool | integer | decimal | text | date | object => rfl

/-- Items that the body leaves as they are. -/
theorem shown_each_unchanged (h : ∀ i, (ParamRun.at kind params i).Blind) {c : Call} {r : Result}
    (hitems : ∀ items, v = .list items → ∀ x ∈ items, (alone kind params x).2 = x)
    (hshown : (shown ((each c).exec kind params) v).1 = .ok r) :
    (shown ((each c).exec kind params) v).2 = if v.isNull then .list [] else v := by
  cases v with
  | list items =>
    rcases first_error (fun x => (alone kind params x).1) items with
      hok | ⟨before, x, after, e', rfl, hbefore, hx⟩
    · obtain ⟨r', heach, -⟩ := shown_each_ok h c hok
      rw [heach]
      have hmap : items.map (fun x => (alone kind params x).2) = items :=
        (List.map_congr_left (hitems items rfl)).trans (List.map_id' items)
      exact congrArg Value.list hmap
    · rw [shown_each_error h c hbefore hx] at hshown
      cases hshown
  | null => rfl
  | bool | integer | decimal | text | date | object => cases hshown

end Builtin

namespace Action

open RunM

/-- How a run of EACH over items ends and the target it leaves, from what its body shows of each
item alone. -/
structure Pointwise (a : Action) (alone : Value → Except RunError Result × Value)
    (items : List Value) (ran : Except RunError Result × Value) : Prop where
  /-- The first item on which the body fails. -/
  error : ∀ before item after e, items = before ++ item :: after →
    (∀ x ∈ before, ∃ r, (alone x).1 = .ok r) → (alone item).1 = .error e →
      ran = (.error e, .list items)
  /-- Items on none of which it fails. -/
  ok : (∀ x ∈ items, ∃ r, (alone x).1 = .ok r) →
    ∃ r, ran = (.ok (a.judged r), .list (items.map fun x => (alone x).2)) ∧
      (r = .complete ∨ r.kind = .fail) ∧
      (r.kind = .fail ↔ ∃ x ∈ items, Builtin.FailsOn alone x)

variable {en : Engine} {a body : Action} {depth : Nat} {s t : RunState}

theorem shown_run (a : Action) (depth : Nat) (v : Value) : shown (a.run en depth) v =
    shownThen (fun r => pure (a.judged r)) (shown (a.attempt en depth) v) := by
  simp only [shown, outcome_run]
  generalize outcome (a.attempt en depth) _ = ran
  obtain ⟨e | r, t⟩ := ran <;> rfl

theorem paramsBlind (en : Engine) (a : Action) (kind : ActionKind) (depth i : Nat) :
    (ParamRun.at kind (runParams en a.params depth) i).Blind := by
  rw [ParamRun.at, getElem?_runParams]
  cases a.params[i]? with
  | none => exact ParamRun.blind_missing kind i
  | some p => exact runParam_blind fun m _ => run_blind en m depth

/-- EACH where it is not refused. -/
theorem attempt_each {h : Handler} (hhandler : en.registry.handler? .each = some h)
    (hscript : h.script = Builtin.each) (hkind : a.kind = .each) (hdepth : depth ≤ en.maxDepth) :
    a.attempt en depth = (Builtin.each ⟨a, en.today, en.evaluator.config⟩).exec a.kind
      (runParams en a.params (depth + 1)) := by
  rw [attempt, if_neg (Nat.not_lt.2 hdepth), hkind, hhandler]
  dsimp only
  rw [hscript]

theorem alone_runParams (hbody : a.params[0]? = some (.action body)) :
    Builtin.alone a.kind (runParams en a.params depth) = shown (body.run en depth) := by
  funext v
  rw [Builtin.alone, ParamRun.at, getElem?_runParams, hbody]
  rfl

theorem pointwise_run {h : Handler} (hhandler : en.registry.handler? .each = some h)
    (hscript : h.script = Builtin.each) (hkind : a.kind = .each) (hdepth : depth ≤ en.maxDepth)
    (hbody : a.params[0]? = some (.action body)) (items : List Value) :
    Pointwise a (shown (body.run en (depth + 1))) items (shown (a.run en depth) (.list items)) := by
  rw [shown_run, attempt_each hhandler hscript hkind hdepth, ← alone_runParams hbody]
  have hblind := paramsBlind en a a.kind (depth + 1)
  constructor
  · rintro before item after e rfl hbefore hitem
    rw [Builtin.shown_each_error hblind _ hbefore hitem]
    rfl
  · intro hitems
    obtain ⟨r, hshown, hr⟩ :=
      Builtin.shown_each_ok hblind ⟨a, en.today, en.evaluator.config⟩ hitems
    rw [hshown]
    exact ⟨r, rfl, hr⟩

/-- The engine's EACH, where there is one. -/
def OwnEach (en : Engine) : Prop :=
  ∀ h, en.registry.handler? .each = some h → h.script = Builtin.each

/-- A run of EACH is refused, or it is one of its script. -/
theorem attempt_each_cases (hown : OwnEach en) (hkind : a.kind = .each) (depth : Nat) :
    (∃ e, a.attempt en depth = throw e) ∨
      a.attempt en depth = (Builtin.each ⟨a, en.today, en.evaluator.config⟩).exec a.kind
        (runParams en a.params (depth + 1)) := by
  by_cases hdepth : depth ≤ en.maxDepth
  · cases hhandler : en.registry.handler? .each with
    | none =>
      refine .inl ⟨.noHandler a.kind, ?_⟩
      rw [attempt, if_neg (Nat.not_lt.2 hdepth), hkind, hhandler]
    | some h => exact .inr (attempt_each hhandler (hown h hhandler) hkind hdepth)
  · exact .inl ⟨.tooDeep en.maxDepth, if_pos (Nat.lt_of_not_le hdepth)⟩

/-- A run of EACH ends with what its script shows, or is refused. -/
theorem shown_run_each_cases (hown : OwnEach en) (hkind : a.kind = .each) (depth : Nat)
    (v : Value) :
    (∃ e, shown (a.run en depth) v = (.error e, v)) ∨
      shown (a.run en depth) v = shownThen (fun r => pure (a.judged r))
        (shown ((Builtin.each ⟨a, en.today, en.evaluator.config⟩).exec a.kind
          (runParams en a.params (depth + 1))) v) := by
  rw [shown_run]
  rcases attempt_each_cases hown hkind depth with ⟨e, he⟩ | hscript
  · rw [he]
    exact .inl ⟨e, rfl⟩
  · rw [hscript]
    exact .inr rfl

/-- EACH that fails leaves the target as it was. -/
theorem run_each_kept (hown : OwnEach en) (hkind : a.kind = .each) {e : RunError}
    (hrun : (outcome (a.run en depth) s).1 = .error e) :
    (outcome (a.run en depth) s).2.target = s.target := by
  rw [(run_blind en a depth).ended] at hrun
  rw [(run_blind en a depth).left]
  rcases shown_run_each_cases hown hkind depth s.target with ⟨e', he⟩ | hshown
  · rw [he]
  · have hkept := Builtin.shown_each_kept (v := s.target) (e := e)
      (c := ⟨a, en.today, en.evaluator.config⟩) (paramsBlind en a a.kind (depth + 1))
    rw [hshown] at hrun ⊢
    generalize shown _ s.target = ran at hrun hkept ⊢
    obtain ⟨e' | r, w⟩ := ran
    · exact hkept hrun
    · cases hrun

/-- **EACH maps its body over a list, or leaves the list as it was.** -/
theorem run_each (hown : OwnEach en) :
    (∀ (a : Action) depth s e, a.kind = .each → (outcome (a.run en depth) s).1 = .error e →
        (outcome (a.run en depth) s).2.target = s.target) ∧
      ∀ text i a, en.registry.contains .each = true →
        Instruction.parse en.evaluator.config text = .ok i → a ∈ i.actions → a.kind = .each →
          ∃ body, a.params[0]? = some (.action body) ∧ ∀ items s, s.target = .list items →
            Pointwise a (shown (body.run en 0)) items
              ((outcome (a.run en 0) s).1, (outcome (a.run en 0) s).2.target) := by
  refine ⟨fun a depth s e hkind hrun => run_each_kept hown hkind hrun, ?_⟩
  intro text i a hcontains hparse ha hkind
  obtain ⟨h, hhandler⟩ := Option.isSome_iff_exists.1 hcontains
  have hplace : 0 ∈ a.kind.actionPlaces a.params.length := by
    rw [hkind]
    exact List.mem_singleton.2 rfl
  obtain ⟨body, hbody⟩ := (proper_of_parse hparse ha .self).places 0 hplace
  refine ⟨body, hbody, fun items s hs => ?_⟩
  have hfits := fits_iff.1 (Instruction.fits_of_parse hparse a ha)
  have hbodyFits : body.Fits en.maxDepth 1 := hfits.2 _ (List.mem_of_getElem? hbody)
  rw [run_blind en a 0 s, hs, run_eq_of_fits (hbodyFits.mono (Nat.zero_le 1)) hbodyFits]
  exact pointwise_run hhandler (hown h hhandler) hkind hfits.1 hbody items

/-- `EACH(IFTTT(gt(10),SET(10)))` puts 10 for what is greater, and fails with the other items. -/
theorem run_each_capped :
    let en : Engine := { registry := .builtin, today := .earliest }
    let items : List Value := [.integer 5, .integer 12]
    ∃ a body, Instruction.parse {} "EACH(IFTTT(gt(10),SET(10)))" = .ok (.action a) ∧
      a.params[0]? = some (.action body) ∧
      Pointwise a (shown (body.run en 0)) items (shown (a.run en 0) (.list items)) ∧
      (shown (a.run en 0) (.list items)).1.map Result.kind = .ok .fail ∧
      (shown (a.run en 0) (.list items)).2.same (.list [.integer 5, .integer 10]) = true := by
  intro en items
  obtain ⟨a, ha, hkind, hresult, htarget⟩ := Instruction.exists_of_isActionWith
    (P := fun a => a.kind = .each ∧
      (shown (a.run en 0) (.list items)).1.map Result.kind = .ok .fail ∧
      (shown (a.run en 0) (.list items)).2.same (.list [.integer 5, .integer 10]) = true)
    (x := Instruction.parse {} "EACH(IFTTT(gt(10),SET(10)))") (by decide +kernel)
  have hown : OwnEach en := by
    rintro _ ⟨⟩
    rfl
  obtain ⟨body, hbody, hpointwise⟩ :=
    (run_each hown).2 _ _ a rfl ha (List.mem_singleton.2 rfl) hkind
  exact ⟨a, body, ha, hbody, hpointwise items { target := .list items } rfl, hresult, htarget⟩

/-- **EACH whose body leaves the items as they are leaves a list as it is**, and makes of null the
empty list. -/
theorem run_each_unchanged (hown : OwnEach en) (hkind : a.kind = .each)
    (hbody : a.params[0]? = some (.action body))
    (hitems : ∀ items, s.target = .list items →
      ∀ x ∈ items, (shown (body.run en (depth + 1)) x).2 = x) {r : Result}
    (hrun : outcome (a.run en depth) s = (.ok r, t)) :
    t.target = if s.target.isNull then .list [] else s.target := by
  have hended := (run_blind en a depth).ended s
  have hleft := (run_blind en a depth).left s
  rw [hrun] at hended hleft
  rw [hleft]
  rw [← alone_runParams hbody] at hitems
  rcases shown_run_each_cases hown hkind depth s.target with ⟨e, he⟩ | hshown
  · rw [he] at hended
    cases hended
  · have hkept (q : Result) := Builtin.shown_each_unchanged (v := s.target) (r := q)
      (c := ⟨a, en.today, en.evaluator.config⟩) (paramsBlind en a a.kind (depth + 1)) hitems
    rw [hshown] at hended ⊢
    generalize shown _ s.target = ran at hended hkept ⊢
    obtain ⟨e | q, w⟩ := ran
    · cases hended
    · exact hkept q rfl

/-- `EACH(CHECK(true))` leaves a list of two items as it is. -/
theorem run_each_unchanged_check :
    let en : Engine := { registry := .builtin, today := .earliest }
    let body : Action := .of .check [.literal (.bool true)]
    let s : RunState := { target := .list [.integer 1, .text "b"] }
    ∃ r t, outcome (run en (.of .each [.action body]) 0) s = (.ok r, t) ∧ t.target = s.target := by
  intro en body s
  have hown : OwnEach en := by
    rintro _ ⟨⟩
    rfl
  have hitems : ∀ items, s.target = .list items → ∀ x ∈ items, (shown (body.run en 1) x).2 = x :=
    fun _ _ _ _ => rfl
  obtain ⟨r, t, hrun⟩ : ∃ r t, outcome (run en (.of .each [.action body]) 0) s = (.ok r, t) :=
    ⟨_, _, rfl⟩
  exact ⟨r, t, hrun, run_each_unchanged hown rfl rfl hitems hrun⟩

/-- `EACH(CHECK(true))`, whose body leaves everything as it is, makes an empty list of null. -/
theorem run_each_of_null :
    let en : Engine := { registry := .builtin, today := .earliest }
    let body : Action := .of .check [.literal (.bool true)]
    let s : RunState := { target := .null }
    (∀ v, (shown (body.run en 1) v).2 = v) ∧
      ∃ t, outcome (run en (.of .each [.action body]) 0) s = (.ok .complete, t) ∧
        t.target = .list [] ∧ t.target ≠ s.target :=
  ⟨fun _ => rfl, _, rfl, rfl, nofun⟩

end Action

end Rulebook
