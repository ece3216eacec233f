import Rulebook.Proofs.Step.Visit

/-!
# The trace of a run of steps

**Main result** `Step.run_trace`: from every journal a step tree goes as a tree of visits; its path
is as before, and one entry is added for each visit, in postorder.  When the run returns, so did
every visit.  When it fails, the last entries are those of the line of the error:

    [ visits that returned … | step that raised e, its parent, …, root ]
-/

namespace Rulebook

namespace Visit

theorem postorder_eq (above : List String) (v : Visit) :
    v.postorder above = allPostorder (above ++ [v.step.name]) v.inner ++
      [(above ++ [v.step.name], v)] := by
  obtain ⟨step, result, inner⟩ := v
  rw [postorder]

/-- The visits returned. -/
def AllOk (xs : List (List String × Visit)) : Prop := ∀ x ∈ xs, ∃ r, x.2.result = .ok r

end Visit

namespace Step

variable {en : Engine}

/-! ## Each visit is a run -/

theorem Ran.step_eq {depth : Nat} {t u : RunState} {s : Step} {v : Visit}
    (h : Ran en depth t s v u) : v.step = s := by
  cases h <;> rfl

/-- A visit has the result that the run of its step returned, below the names `above`. -/
def Returned (en : Engine) (depth : Nat) (above : List String) (x : List String × Visit) : Prop :=
  ∃ below t trace, x.1 = above ++ below ++ [x.2.step.name] ∧
    (outcome (x.2.step.runAt en (depth + below.length)) ⟨t, above ++ below, trace⟩).1 = x.2.result

theorem Returned.of_inner {depth : Nat} {above : List String} {name : String}
    {x : List String × Visit} (h : Returned en (depth + 1) (above ++ [name]) x) :
    Returned en depth above x := by
  obtain ⟨below, t, trace, hnames, hresult⟩ := h
  refine ⟨name :: below, t, trace, ?_, ?_⟩
  · rw [hnames, List.append_assoc above [name], List.singleton_append]
  · rw [List.append_assoc, List.singleton_append] at hresult
    rw [List.length_cons, Nat.add_comm below.length, ← Nat.add_assoc]
    exact hresult

mutual

theorem Ran.returned {depth : Nat} {t u : RunState} {s : Step} {v : Visit}
    (hran : Ran en depth t s v u) (hdepth : depth ≤ en.maxDepth) (above : List String) :
    ∀ x ∈ v.postorder above, Returned en depth above x := by
  have hself : Returned en depth above (above ++ [v.step.name], v) := by
    refine ⟨[], t, [], by rw [List.append_nil], ?_⟩
    rw [hran.step_eq, List.append_nil, List.length_nil, Nat.add_zero, hran.outcome_runAt hdepth]
  have hinner : ∀ x ∈ Visit.allPostorder (above ++ [v.step.name]) v.inner,
      Returned en (depth + 1) (above ++ [v.step.name]) x := by
    cases hran with
    | raised | childless | stopped => exact nofun
    | cascaded _ _ _ _ hall => exact hall.returned _
    | passedOn _ _ _ _ hall => exact hall.returned _
  rw [Visit.postorder_eq]
  exact List.forall_mem_append.2
    ⟨fun x hx => (hinner x hx).of_inner, List.forall_mem_singleton.2 hself⟩

theorem RanAll.returned {depth : Nat} {t u : RunState} {ss : List Step} {vs : List Visit}
    {e? : Option RunError} (hran : RanAll en depth t ss vs e? u) (above : List String) :
    ∀ x ∈ Visit.allPostorder above vs, Returned en depth above x := by
  cases hran with
  | nil | halted | refused => exact nofun
  | raised _ hdepth hv _ => exact List.forall_mem_append.2 ⟨hv.returned hdepth above, nofun⟩
  | next _ hdepth hv _ hvs =>
    exact List.forall_mem_append.2 ⟨hv.returned hdepth above, hvs.returned above⟩

end

/-! ## The line of an error -/

/-- The step raised the error: one of its instructions did, or its children are too deep. -/
def RaisedBy (en : Engine) (depth : Nat) (v : Visit) (e : RunError) : Prop :=
  v.inner = [] ∧
    ((∃ t, (outcome (Instruction.runAll en .noAction v.step.instructions) t).1 = .error e) ∨
      e = .tooDeep en.maxDepth ∧ en.maxDepth < depth + 1)

/-- The visits that an error passes, from that of the step that raised it up to this one; each is
the last inside the next. -/
inductive Line (en : Engine) (e : RunError) :
    Nat → List String → Visit → List (List String × Visit) → Prop
  | raised {depth above v} : v.result = .error e → RaisedBy en depth v e →
      Line en e depth above v [(above ++ [v.step.name], v)]
  | passed {depth above v vs w line} : v.result = .error e → v.inner = vs ++ [w] →
      Line en e (depth + 1) (above ++ [v.step.name]) w line →
      Line en e depth above v (line ++ [(above ++ [v.step.name], v)])

theorem Line.result {e : RunError} {depth : Nat} {above : List String} {v : Visit}
    {line : List (List String × Visit)} (h : Line en e depth above v line) :
    ∀ x ∈ line, x.2.result = .error e := by
  induction h with
  | raised hv => exact List.forall_mem_singleton.2 hv
  | passed hv _ _ ih => exact List.forall_mem_append.2 ⟨ih, List.forall_mem_singleton.2 hv⟩

/-- What a visit and those inside it came to: when it returned, so did they; when it failed, the
last of them are the line of its error. -/
def Settled (en : Engine) (depth : Nat) (above : List String) (v : Visit) : Prop :=
  match v.result with
  | .ok _ => Visit.AllOk (v.postorder above)
  | .error e => ∃ before line, v.postorder above = before ++ line ∧ Visit.AllOk before ∧
      Line en e depth above v line

/-- What visits in a row came to.  When they failed without a visit, the first step was too deep. -/
def AllSettled (en : Engine) (depth : Nat) (above : List String) (vs : List Visit) :
    Option RunError → Prop
  | none => Visit.AllOk (Visit.allPostorder above vs)
  | some e => (vs = [] ∧ e = .tooDeep en.maxDepth ∧ en.maxDepth < depth) ∨
      ∃ ws w before line, vs = ws ++ [w] ∧ Visit.allPostorder above vs = before ++ line ∧
        Visit.AllOk before ∧ Line en e depth above w line

theorem settled_of_raised {depth : Nat} {above : List String} {v : Visit} {e : RunError}
    (hv : v.result = .error e) (h : RaisedBy en depth v e) : Settled en depth above v := by
  rw [Settled, hv]
  refine ⟨[], _, ?_, nofun, .raised hv h⟩
  rw [Visit.postorder_eq, h.1]
  rfl

theorem settled_of_inner {depth : Nat} {above : List String} {v : Visit} {r : Result}
    (hv : v.result = .ok r)
    (h : Visit.AllOk (Visit.allPostorder (above ++ [v.step.name]) v.inner)) :
    Settled en depth above v := by
  rw [Settled, hv]
  rw [Visit.postorder_eq]
  exact List.forall_mem_append.2 ⟨h, List.forall_mem_singleton.2 ⟨r, hv⟩⟩

/-- A failed visit whose line ends inside it. -/
theorem settled_of_passed {depth : Nat} {above : List String} {v w : Visit} {vs : List Visit}
    {before line : List (List String × Visit)} {e : RunError} (hv : v.result = .error e)
    (hinner : v.inner = vs ++ [w])
    (hsplit : Visit.allPostorder (above ++ [v.step.name]) v.inner = before ++ line)
    (hbefore : Visit.AllOk before) (hline : Line en e (depth + 1) (above ++ [v.step.name]) w line) :
    Settled en depth above v := by
  rw [Settled, hv]
  refine ⟨before, _, ?_, hbefore, .passed hv hinner hline⟩
  rw [Visit.postorder_eq, hsplit, List.append_assoc]

mutual

theorem Ran.settled {depth : Nat} {t u : RunState} {s : Step} {v : Visit}
    (hran : Ran en depth t s v u) (above : List String) : Settled en depth above v := by
  cases hran with
  | raised hown => exact settled_of_raised rfl ⟨rfl, .inl ⟨t, by rw [hown]⟩⟩
  | childless | stopped => exact settled_of_inner rfl nofun
  | cascaded _ _ _ _ hall => exact settled_of_inner rfl (hall.settled _)
  | passedOn _ _ _ _ hall =>
    -- the first child was too deep to be entered, or the last that was entered failed
    rcases hall.settled (above ++ [s.name]) with ⟨rfl, he, hdepth⟩ | ⟨ws, w, before, line, hvs, h⟩
    · exact settled_of_raised rfl ⟨rfl, .inr ⟨he, hdepth⟩⟩
    · exact settled_of_passed rfl hvs h.1 h.2.1 h.2.2

theorem RanAll.settled {depth : Nat} {t u : RunState} {ss : List Step} {vs : List Visit}
    {e? : Option RunError} (hran : RanAll en depth t ss vs e? u) (above : List String) :
    AllSettled en depth above vs e? := by
  cases hran with
  | nil | halted => exact nofun
  | refused _ hdepth => exact .inl ⟨rfl, rfl, hdepth⟩
  | raised _ _ hv hresult =>
    have h := hv.settled above
    rw [Settled, hresult] at h
    obtain ⟨before, line, hsplit, hbefore, hline⟩ := h
    refine .inr ⟨[], _, before, line, rfl, ?_, hbefore, hline⟩
    rw [Visit.allPostorder, Visit.allPostorder, List.append_nil, hsplit]
  | next _ hdepth hv hresult hvs =>
    have hok := hv.settled above
    rw [Settled, hresult] at hok
    have hrest := hvs.settled above
    cases e? with
    | none => exact List.forall_mem_append.2 ⟨hok, hrest⟩
    | some e =>
      rcases hrest with ⟨rfl, _, hdeep⟩ | ⟨ws, w, before, line, rfl, hsplit, hbefore, hline⟩
      · -- all of them are at one depth, and this one was entered
        exact absurd hdepth (Nat.not_le.2 hdeep)
      · refine .inr ⟨_ :: ws, w, _ ++ before, line, rfl, ?_,
          List.forall_mem_append.2 ⟨hok, hbefore⟩, hline⟩
        rw [Visit.allPostorder, hsplit, List.append_assoc]

end

/-! ## The whole run -/

/-- **The trace is the postorder of the visits**, and the path is restored. -/
theorem run_trace (en : Engine) (s : Step) (j : Journal) :
    ∃ v, Ran en 0 j.state s v (outcome (s.run en) j).2.state ∧
      (outcome (s.run en) j).1 = v.result ∧
      (outcome (s.run en) j).2.path = j.path ∧
      (outcome (s.run en) j).2.trace = j.trace ++ (v.postorder j.path).map Visit.entry ∧
      (∀ x ∈ v.postorder j.path, Returned en 0 j.path x) ∧
      match v.result with
      | .ok r => Visit.AllOk (v.postorder j.path) ∧
        (outcome (s.run en) j).2.trace.getLast? =
          some ⟨Text.join "/" (j.path ++ [s.name]), r⟩
      | .error e => ∃ before line, v.postorder j.path = before ++ line ∧ Visit.AllOk before ∧
        Line en e 0 j.path v line ∧ ∀ x ∈ line, (Visit.entry x).result = .ofError e := by
  obtain ⟨v, u, hran⟩ := exists_ran en s 0 j.state
  have hrun : outcome (s.run en) j = (v.result, ⟨u, j.path, j.trace ++ v.entries j.path⟩) :=
    hran.outcome_runAt (Nat.zero_le _) j.path j.trace
  have hsettled := hran.settled j.path
  rw [Settled] at hsettled
  rw [hrun]
  refine ⟨v, hran, rfl, rfl, rfl, hran.returned (Nat.zero_le _) j.path, ?_⟩
  cases hresult : v.result with
  | ok r =>
    rw [hresult] at hsettled
    refine ⟨hsettled, ?_⟩
    rw [Visit.entries_eq, hran.step_eq, Visit.shown_of_ok hresult, ← List.append_assoc,
      List.getLast?_concat]
  | error e =>
    rw [hresult] at hsettled
    obtain ⟨before, line, hsplit, hbefore, hline⟩ := hsettled
    exact ⟨before, line, hsplit, hbefore, hline,
      fun x hx => Visit.shown_of_error (hline.result x hx)⟩

end Step

end Rulebook
