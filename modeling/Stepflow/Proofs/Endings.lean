import Mathlib.Data.List.Chain
import Stepflow.Proofs.Compensation
import Stepflow.Proofs.Run.Course

/-!
# What a run comes to is consistent

The result of a run says three times over how it ended: whether it succeeded, whether it was cancelled,
and which error stopped it; and its steps say it a fourth time. However a run comes to its end, these
agree (`ran_consistent`): after the steps that went well there is nothing, or only what was cancelled,
or the one step that failed.
-/

namespace Stepflow

open Script

variable {κ : Type} {r : Runner κ} {w : Workflow} {id : String} {inputs : Fields} {scope : Scope}
  {p p' q : Place} {h k : History (Inquiry κ) Inquiry.Answer} {x : Execution} {ending : Ending}
  {ss : List Step} {recorded results : List StepResult}

/-! ## The end -/

/-- What the results that end in `rest` say of how a run ended. -/
def Ending.Closes (h : History (Inquiry κ) Inquiry.Answer) (results rest : List StepResult) :
    Ending → Prop
  | .finished => rest = []
  | .cancelled => rest ≠ [] ∧ ∀ s ∈ rest, s.status = .cancelled
  | .failed error =>
    (∃ s, rest = [s] ∧ s.status = .failed ∧
      error = "step '" ++ s.name ++ "' failed: " ++ s.error.getD "") ∨
    (rest = [] ∧ ∃ id c e s, Turn.asked ⟨{ request := .save id c }, .error e⟩ ∈ h ∧
      c.steps = results ∧ results.getLast? = some s ∧
      error = "checkpoint after step '" ++ s.name ++ "' failed: " ++ e.message)

/-- A longer history says no less. -/
theorem Ending.Closes.mono {rest : List StepResult} (hc : ending.Closes h results rest)
    (hk : ∀ turn ∈ h, turn ∈ k) : ending.Closes k results rest := by
  cases ending with
  | finished => exact hc
  | cancelled => exact hc
  | failed error =>
    obtain hfailed | ⟨hnil, id, c, e, s, hsave, hc⟩ := hc
    · exact .inl hfailed
    · exact .inr ⟨hnil, id, c, e, s, hk _ hsave, hc⟩

/-- An execution that ended so. -/
structure Ending.IsOf (ending : Ending) (x : Execution) : Prop where
  /-- Its state is that of the ending. -/
  state : x.state = ending.state
  /-- It succeeded if all its steps are done. -/
  success : x.result.success = (ending.state = .completed : Bool)
  /-- It was cancelled if that was its end. -/
  cancelled : x.result.cancelled = (ending.state = .cancelled : Bool)
  /-- It has the error that stopped it. -/
  error : x.result.error = ending.error?

namespace Runner

variable {run : Context → Step → RunScript κ StepOutcome}

theorem saving_error {s : Step} {e : CheckpointError}
    (u : (saving w scope inputs s results : RunScript κ _).Unfolds h (.error e)) :
    ∃ c, Turn.asked ⟨{ request := .save scope.runId c }, .error e⟩ ∈ h ∧ c.steps = results := by
  rcases saving_unfolds u with ⟨-, -, hsaved⟩ | ⟨-, id, savedAt, rfl⟩
  · contradiction
  · refine ⟨checkpointOf w inputs id savedAt results, ?_, rfl⟩
    simp

/-- **How the steps stop** is what the results end with: those that went well, and then what the ending
says. -/
theorem Stops.closes (hk : ∀ s ∈ ss, ∀ c, s.Keeps r (run c s))
    (hs : Stops run (saving w scope inputs) ss q h p' ending)
    (hss : w.steps.drop q.results.length = ss) :
    ∃ well rest, resultsAtEnd w ending p'.results = q.results ++ (well ++ rest) ∧
      (well ++ rest).map StepResult.name <+: ss.map Step.name ∧
      (ending.error? = none → (well ++ rest).map StepResult.name = ss.map Step.name) ∧
      (∀ s ∈ well, s.success) ∧
      ending.Closes h (resultsAtEnd w ending p'.results) rest := by
  -- the steps that are not reached are recorded as cancelled, under their names
  have hnames : ∀ ss : List Step,
      (ss.map StepResult.cancelled).map StepResult.name = ss.map Step.name := fun ss => by
    rw [List.map_map]
    rfl
  have hcancelled : ∀ (ss : List Step), ∀ s ∈ ss.map StepResult.cancelled, s.status = .cancelled := by
    intro ss s hm
    obtain ⟨i, -, rfl⟩ := List.mem_map.1 hm
    rfl
  cases hs with
  | finished =>
    exact ⟨[], [], (List.append_nil _).symm, List.nil_prefix, fun _ => rfl, List.forall_mem_nil _, rfl⟩
  | cancelledBefore s rest =>
    refine ⟨[], (s :: rest).map StepResult.cancelled, ?_, ?_, fun _ => hnames _,
      List.forall_mem_nil _, List.cons_ne_nil _ _, hcancelled _⟩
    · rw [resultsAtEnd, hss, List.nil_append]
    · rw [List.nil_append]
      exact hnames (s :: rest) ▸ List.prefix_rfl
  | @cancelled s _ _ o rest ht hstatus =>
    have hname : o.result.name = s.name := ht.name (hk s List.mem_cons_self)
    have hleft : w.steps.drop (q.after o).results.length = rest := Place.drop_results_after hss
    refine ⟨[], o.result :: rest.map StepResult.cancelled, ?_, ?_, fun _ => ?_,
      List.forall_mem_nil _, List.cons_ne_nil _ _, ?_⟩
    · rw [resultsAtEnd, hleft]
      simp [Place.after]
    · simp only [List.nil_append, List.map_cons, hname, hnames]
      exact List.prefix_rfl
    · simp only [List.nil_append, List.map_cons, hname, hnames]
    · intro i hm
      rcases List.mem_cons.1 hm with rfl | hm
      · exact hstatus
      · exact hcancelled _ i hm
  | @failed s _ _ o rest ht hstatus =>
    have hname : o.result.name = s.name := ht.name (hk s List.mem_cons_self)
    refine ⟨[], [o.result], rfl, ?_, fun h => absurd h (Option.some_ne_none _), List.forall_mem_nil _,
      .inl ⟨o.result, rfl, hstatus, ?_⟩⟩
    · simp [hname]
    · rw [hname]
      rfl
  | @unsaved s _ h₁ h₂ o e rest ht hdone hsave =>
    have hname : o.result.name = s.name := ht.name (hk s List.mem_cons_self)
    obtain ⟨c, hc, hsteps⟩ := saving_error hsave
    refine ⟨[o.result], [], rfl, ?_, fun h => absurd h (Option.some_ne_none _), ?_,
      .inr ⟨rfl, scope.runId, c, e, o.result, ?_, hsteps, ?_, ?_⟩⟩
    · simp [hname]
    · intro i hm
      rw [List.mem_singleton.1 hm]
      exact StepResult.success_of_isDone hdone
    · exact List.mem_append_right _ hc
    · simp [resultsAtEnd, Place.after]
    · rw [hname]
      rfl

/-- **The end of a run** says how it ended, and gives its results. -/
theorem conclude_unfolds {began : Nat} (u : (r.conclude w scope began p ending).Unfolds h x) :
    ending.IsOf x ∧ x.result.steps = resultsAtEnd w ending p.results := by
  obtain ⟨h₁, h₂, owed, u₁, u₂, rfl⟩ := unfolds_andThen.1 u
  obtain ⟨h₃, h₄, totalMs, u₃, u₄, rfl⟩ := unfolds_andThen.1 u₂
  obtain ⟨h₅, h₆, _, u₅, u₆, rfl⟩ := unfolds_andThen.1 u₄
  obtain ⟨rfl, rfl⟩ := unfolds_done.1 u₆
  -- a run under way may become whatever a run can end in
  have hstate : (RunState.notStarted.advance .running).advance ending.state = ending.state := by
    cases ending <;> rfl
  refine ⟨⟨hstate, ?_, ?_, rfl⟩, rfl⟩
  · dsimp only
    rw [hstate]
  · dsimp only
    rw [hstate]

end Runner

/-! ## Every run -/

/-- **A run of the workflow that started** has the history `h` and comes to `x`. It is run under a given
identifier or a fresh one, or inside a step of another, or resumed; then the results `recorded` are
taken over, whatever they are. -/
inductive Runner.Ran (r : Runner κ) (w : Workflow) :
    (recorded : List StepResult) → History (Inquiry κ) Inquiry.Answer → Execution → Prop
  /-- It is run under an identifier. -/
  | run {id : String} {inputs : Fields} {h : History (Inquiry κ) Inquiry.Answer} {x : Execution} :
      (r.run w id inputs).Unfolds h (.ok x) → Ran r w [] h x
  /-- It is run under a fresh one. -/
  | runFresh {inputs : Fields} {h : History (Inquiry κ) Inquiry.Answer} {x : Execution} :
      (r.runFresh w inputs).Unfolds h (.ok x) → Ran r w [] h x
  /-- It is run inside a step. -/
  | inside {levels : Nat} {inputs : Fields} {scope : Scope} {h : History (Inquiry κ) Inquiry.Answer}
      {x : Execution} : (r.execute levels w inputs scope).Unfolds h (.ok x) → Ran r w [] h x
  /-- It is resumed from a checkpoint. -/
  | resume {id : String} {inputs : Fields} {c : Checkpoint} {h : History (Inquiry κ) Inquiry.Answer}
      {x : Execution} :
      (r.resume w id inputs).Unfolds (.asked ⟨{ request := .latest id }, .ok (some c)⟩ :: h) (.ok x) →
        Ran r w c.steps (.asked ⟨{ request := .latest id }, .ok (some c)⟩ :: h) x

/-- **What a run comes to is consistent** with the workflow and in itself. -/
structure Execution.Consistent (w : Workflow) (x : Execution) : Prop where
  /-- It succeeded, or was cancelled, or has an error, and only one of these. -/
  one : [x.result.success, x.result.cancelled, x.result.error.isSome].count true = 1
  /-- Every change of its state was one that is allowed. -/
  changes : [RunState.notStarted, .running, x.state].IsChain fun now next => now.canBecome next
  /-- The last state is the one that the result tells. -/
  state : x.state = x.result.state
  /-- The steps have the names of the first steps declared. -/
  names : x.result.steps.map StepResult.name <+: w.steps.map Step.name
  /-- And of all of them, unless there is an error. -/
  all : x.result.error = none → x.result.steps.map StepResult.name = w.steps.map Step.name

/-- **How the steps of a run end**: after those taken over come some that went well, and then what
became of the run. -/
structure Execution.Closes (h : History (Inquiry κ) Inquiry.Answer) (x : Execution)
    (recorded well rest : List StepResult) : Prop where
  /-- There are no others. -/
  steps : x.result.steps = recorded ++ (well ++ rest)
  /-- Those that went well passed, were fixed, or were skipped. -/
  success : ∀ s ∈ well, s.success
  /-- If the run succeeded, nothing follows. -/
  finished : x.result.success → rest = []
  /-- If it was cancelled, some follow, and all of them are cancelled. -/
  cancelled : x.result.cancelled → rest ≠ [] ∧ ∀ s ∈ rest, s.status = .cancelled
  /-- If there is an error, the step follows that failed with it; or nothing, and the checkpoint after
  the last step could not be saved. -/
  failed : ∀ error, x.result.error = some error →
    (∃ s, rest = [s] ∧ s.status = .failed ∧
      error = "step '" ++ s.name ++ "' failed: " ++ s.error.getD "") ∨
    (rest = [] ∧ ∃ id c e s, Turn.asked ⟨{ request := .save id c }, .error e⟩ ∈ h ∧
      c.steps = x.result.steps ∧ x.result.steps.getLast? = some s ∧
      error = "checkpoint after step '" ++ s.name ++ "' failed: " ++ e.message)

namespace Runner

/-- A run that is resumed has read a checkpoint. -/
theorem resume_ran (u : (r.resume w id inputs).Unfolds h (.ok x)) : ∃ recorded, r.Ran w recorded h x := by
  obtain ⟨⟨e, he⟩, -⟩ | ⟨given, c, k, rfl, -⟩ := resume_unfolds u
  · contradiction
  · exact ⟨c.steps, .resume u⟩

/-- **What is asked before a run is executed**: nothing, or an identifier for it, or its newest
checkpoint. -/
inductive Prelude : History (Inquiry κ) Inquiry.Answer → Prop
  /-- The identifier is given. -/
  | none : Prelude []
  /-- It is a fresh one. -/
  | freshId (id : String) : Prelude [.asked (Entry.of .freshId id)]
  /-- The run is resumed. -/
  | latest (id : String) (newest : Except CheckpointError (Option Checkpoint)) :
      Prelude [.asked (Entry.of (.latest id) newest)]

/-- **Every run that started** was executed, after what was asked before. -/
theorem Ran.executes (hr : r.Ran w recorded h x) : ∃ levels given scope pre k, h = pre ++ k ∧
    Prelude pre ∧ (r.executeFrom (r.execute levels) recorded w given scope).Unfolds k (.ok x) := by
  have hrun : ∀ {id inputs h}, (r.run w id inputs).Unfolds h (.ok x) → ∃ levels given scope,
      (r.executeFrom (r.execute levels) [] w given scope).Unfolds h (.ok x) := fun u => by
    unfold Runner.run at u
    split at u
    · exact absurd u not_unfolds_refused
    · exact ⟨_, _, _, u⟩
  cases hr with
  | run u =>
    obtain ⟨levels, given, scope, u⟩ := hrun u
    exact ⟨levels, given, scope, [], h, rfl, .none, u⟩
  | runFresh u =>
    obtain ⟨id, k, u₁, rfl⟩ := unfolds_ask.1 u
    obtain ⟨levels, given, scope, u⟩ := hrun u₁
    exact ⟨levels, given, scope, [_], k, rfl, .freshId id, u⟩
  | @inside levels inputs scope h x u =>
    cases levels with
    | zero => exact absurd u not_unfolds_refused
    | succ levels => exact ⟨levels, inputs, scope, [], h, rfl, .none, u⟩
  | @resume id inputs c h x u =>
    obtain ⟨⟨e, he⟩, -⟩ | ⟨given, c', k, heq, u₁⟩ := resume_unfolds u
    · contradiction
    · obtain ⟨hread, rfl⟩ := List.cons.inj heq
      injection hread with hread
      cases hread
      exact ⟨_, given, _, [_], h, rfl, .latest id _, u₁⟩

/-- So it took a course, at the end of its history. -/
theorem Ran.course (hr : r.Ran w recorded h x) : ∃ levels inputs scope k,
    Course r (r.execute levels) w inputs scope recorded k x ∧ k <:+ h := by
  obtain ⟨levels, given, scope, pre, k, rfl, -, u⟩ := hr.executes
  exact ⟨levels, given, scope, k, executeFrom_course u, List.suffix_append _ _⟩

/-- **What the course of a run leads to**: the results taken over, those of the steps passed and of the
last one taken, and then what the ending says. -/
theorem Course.result {levels : Nat}
    (hc : Course r (r.execute levels) w inputs scope recorded h x) :
    ∃ ending well rest, Ending.IsOf ending x ∧ x.result.steps = recorded ++ (well ++ rest) ∧
      x.result.steps.map StepResult.name <+: w.steps.map Step.name ∧
      (ending.error? = none → x.result.steps.map StepResult.name = w.steps.map Step.name) ∧
      (∀ s ∈ well, s.success) ∧ ending.Closes h x.result.steps rest := by
  have hk : ∀ (s : Step) (c : Context), s.Keeps r (r.step (r.execute levels) c scope s) :=
    fun s c => step_keeps (execute_keeps levels) (fun _ _ _ => execute_prompt levels) s c scope
  obtain @⟨p, q, p', left, began, ending, x, h₁, h₂, h₃, hreplay, hpasses, hstops, hends⟩ := hc
  obtain ⟨⟨more, hdeclared⟩, hp⟩ := replay_names hreplay
  obtain ⟨before, new, hss, hq, hnew, hsuccess⟩ := hpasses.behind fun s _ c => hk s c
  obtain ⟨hof, hsteps⟩ := conclude_unfolds hends
  have hp : p.results = recorded := hp
  -- the steps declared are those recorded, those passed, and those left
  have hmore : more = before.map Step.name ++ left.map Step.name := by
    rw [← List.map_append, ← hss, List.map_drop, ← hdeclared]
    exact (List.drop_left' (List.length_map _)).symm
  have hleft : w.steps.drop q.results.length = left := hpasses.drop (by rw [hp])
  obtain ⟨well, rest, hall, hnames, hfull, hwell, hcloses⟩ :=
    hstops.closes (fun s _ c => hk s c) hleft
  have hresult : x.result.steps = recorded ++ (new ++ well ++ rest) := by
    rw [hsteps, hall, hq, hp]
    simp only [List.append_assoc]
  have hmapped : x.result.steps.map StepResult.name = recorded.map StepResult.name ++
      (before.map Step.name ++ (well ++ rest).map StepResult.name) := by
    rw [hresult, List.append_assoc, List.map_append, List.map_append, hnew]
  refine ⟨ending, new ++ well, rest, hof, hresult, ?_, fun hnone => ?_, fun s hm => ?_, ?_⟩
  · rw [hmapped, ← hdeclared, hmore, List.prefix_append_right_inj, List.prefix_append_right_inj]
    exact hnames
  · rw [hmapped, ← hdeclared, hmore, hfull hnone]
  · rcases List.mem_append.1 hm with hm | hm
    · exact hsuccess s hm
    · exact hwell s hm
  · rw [hsteps]
    exact hcloses.mono fun turn ht => by simp [ht]

end Runner

namespace Ending.IsOf

/-- **The three flags exclude each other**, and one of them is raised. -/
theorem one (he : ending.IsOf x) :
    [x.result.success, x.result.cancelled, x.result.error.isSome].count true = 1 := by
  rw [he.success, he.cancelled, he.error]
  cases ending <;> rfl

/-- A run begins, and then ends. -/
theorem changes (he : ending.IsOf x) :
    [RunState.notStarted, .running, x.state].IsChain fun now next => now.canBecome next := by
  rw [he.state]
  cases ending <;> simp [Ending.state, RunState.canBecome, RunState.isTerminal]

theorem state_eq (he : ending.IsOf x) : x.state = x.result.state := by
  rw [RunResult.state, he.success, he.cancelled, he.state]
  cases ending <;> rfl

end Ending.IsOf

namespace Runner

/-- **What every run that starts comes to is consistent.** It succeeded, was cancelled, or has an error,
and one of these alone; its state changed as it may and is in the end the one that the result tells; its
steps are the first ones declared, and all of them unless there is an error. After the results taken
over, of which a fresh run has none, come those of steps that passed, were fixed or skipped. A run that
succeeded has no others. One that was cancelled has others, all of them cancelled. One with an error has
one other, of the step that failed with this error, or none, if it could not save the checkpoint of the
results so far. -/
theorem ran_consistent (hr : r.Ran w recorded h x) :
    x.Consistent w ∧ ∃ well rest, x.Closes h recorded well rest := by
  obtain ⟨levels, inputs, scope, k, hcourse, hsuffix⟩ := hr.course
  obtain ⟨ending, well, rest, hof, hsteps, hnames, hfull, hwell, hcloses⟩ := hcourse.result
  have hcloses := hcloses.mono hsuffix.subset
  refine ⟨⟨hof.one, hof.changes, hof.state_eq, hnames, fun hnone => hfull (hof.error ▸ hnone)⟩,
    well, rest, hsteps, hwell, fun h => ?_, fun h => ?_, fun error h => ?_⟩
  -- each flag is raised by one ending alone
  · rw [hof.success] at h
    cases ending with
    | finished => exact hcloses
    | cancelled => contradiction
    | failed error => contradiction
  · rw [hof.cancelled] at h
    cases ending with
    | finished => contradiction
    | cancelled => exact hcloses
    | failed error => contradiction
  · rw [hof.error] at h
    cases ending with
    | finished => contradiction
    | cancelled => contradiction
    | failed error =>
      injection h with h
      subst h
      exact hcloses

end Runner

namespace Sample

/-- The run of `failing` ends with the failure of its last step. -/
theorem failing_fails : ∃ (h : History (Inquiry String) Inquiry.Answer) (x : Execution),
    (Runner.run { registry := Sample.registry } failing "1" []).Unfolds h (.ok x) ∧
      x.result.error = some "step 'last' failed: boom failed: boom" ∧
      x.result.steps.all StepResult.success = false :=
  ⟨_, _, follow_unfolds answers 0 _, rfl, rfl⟩

end Sample

namespace Runner

open Sample

/-- Its result is the last of all, and the others went well. -/
theorem ran_consistent_failing : ∃ (h : History (Inquiry String) Inquiry.Answer) (x : Execution),
    Ran { registry := Sample.registry } failing [] h x ∧ x.Consistent failing ∧
      x.result.error = some "step 'last' failed: boom failed: boom" ∧
      ∃ well s, x.Closes h [] well [s] ∧ s.status = .failed := by
  obtain ⟨h, x, hu, herror, hnot⟩ := failing_fails
  obtain ⟨hconsistent, well, rest, hcloses⟩ := ran_consistent (.run hu)
  refine ⟨h, x, .run hu, hconsistent, herror, well, ?_⟩
  obtain ⟨s, rfl, hstatus, -⟩ | ⟨rfl, -⟩ := hcloses.failed _ herror
  · exact ⟨s, hcloses, hstatus⟩
  -- nothing would follow only if all went well
  · rw [hcloses.steps, List.nil_append, List.append_nil] at hnot
    rw [List.all_eq_true.2 hcloses.success] at hnot
    contradiction

end Runner

end Stepflow
