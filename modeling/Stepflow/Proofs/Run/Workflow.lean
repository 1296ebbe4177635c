import Stepflow.Proofs.Run.Progress
import Stepflow.Proofs.Run.Passage

/-!
# Every run keeps account

A run takes its steps and then comes to its end. The steps lie along the way from the place where the
run begins, so what they leave is known; the end settles it if the run failed, and hands it on if not.
Runs inside steps are no different, so by induction on the levels of nesting every run keeps account.
-/

namespace Stepflow

open Script

variable {κ : Type} {r : Runner κ} {execute : Execute κ} {w : Workflow} {inputs : Fields}
  {scope : Scope} {t u : Trace κ}

namespace Entry

variable {e : Entry κ}

theorem completion?_of_step (h : e.request.step = none) : e.completion? = none := by
  obtain ⟨⟨site, step, request⟩, answer⟩ := e
  obtain rfl : step = none := h
  rfl

theorem isUndone_of_step (h : e.request.step = none) : e.isUndone = false := by
  obtain ⟨⟨site, step, request⟩, answer⟩ := e
  obtain rfl : step = none := h
  rfl

theorem failure?_of_isCompensating (h : e.request.request.isCompensating) : e.failure? = none := by
  unfold failure?
  split
  · rename_i hr
    rw [hr] at h
    contradiction
  · rfl

end Entry

namespace Trace

/-- The entries are all at no layer and about no step. -/
def Bare (t : Trace κ) : Prop := ∀ e ∈ t, e.request.site = [] ∧ e.request.step = none

namespace Bare

theorem nil : Bare ([] : Trace κ) := fun _ he => nomatch he

theorem append (ht : t.Bare) (hu : u.Bare) : (t ++ u).Bare := fun e he =>
  (List.mem_append.1 he).elim (ht e) (hu e)

theorem layers (h : t.Bare) : t.layers = [] :=
  List.filterMap_eq_nil_iff.2 fun e he => by rw [(h e he).1]; rfl

theorem within (h : t.Bare) (l : Layer) : t.within l = [] :=
  within_eq_nil_iff.2 (by simp [h.layers])

theorem own (h : t.Bare) : t.own = t := own_eq_self h.layers

theorem completions (h : t.Bare) : t.completions = [] :=
  List.filterMap_eq_nil_iff.2 fun e he => Entry.completion?_of_step (h e he).2

theorem undone (h : t.Bare) : t.undone = false :=
  List.any_eq_false.2 fun e he => by simp [Entry.isUndone_of_step (h e (List.mem_filter.1 he).1).2]

end Bare

/-- What a run does before and after its steps changes no layer and completes nothing. -/
theorem ends_of_bare {pre body post : Trace κ} (hb : body.Calm) (hpre : pre.Bare)
    (hpost : post.Bare) : body.Ends (pre ++ body ++ post) where
  calm := hb
  within l := by
    rw [within_append, within_append, hpre.within, hpost.within]
    exact List.append_nil _
  completions := by
    rw [completions_append, completions_append, hpre.completions, hpost.completions]
    exact List.append_nil _

theorem undone_of_bare {pre body post : Trace κ} (hb : body.Calm) (hpre : pre.Bare)
    (hpost : post.Bare) : (pre ++ body ++ post).undone = false := by
  have happ : ∀ t u : Trace κ, (t ++ u).undone = (t.undone || u.undone) := fun t u => by
    rw [undone, own_append, List.any_append]
    rfl
  rw [happ, happ, hpre.undone, hb.undone_eq_false, hpost.undone]
  rfl

theorem failure?_append (t u : Trace κ) :
    (t ++ u).failure? = t.failure?.or u.failure? := by
  rw [failure?, own_append, List.findSome?_append]
  rfl

end Trace

namespace Runner

/-! ## The end of a run -/

/-- What a run exchanges to settle what it owes, by its ending. -/
def Settling (r : Runner κ) (workflow : String) (owed left : List Compensation) (t : Trace κ) :
    Ending → Prop
  | .failed _ => r.Compensates workflow owed.reverse t ∧ left = []
  | .finished | .cancelled => t.Idle ∧ t.Bare ∧ left = owed

theorem settle_settling {workflow : String} {owed left : List Compensation} {ending : Ending}
    (h : (r.settle workflow scope owed ending).Traces t left) :
    r.Settling workflow owed left t ending := by
  cases ending with
  | failed error =>
    obtain ⟨t₁, t₂, _, h₁, h₂, rfl⟩ := traces_andThen.1 h
    obtain ⟨rfl, rfl⟩ := traces_done.1 h₂
    rw [List.append_nil]
    exact ⟨rollback_compensates h₁, rfl⟩
  | cancelled =>
    obtain ⟨rfl, rfl⟩ := traces_done.1 h
    exact ⟨⟨.nil, rfl⟩, .nil, rfl⟩
  | finished =>
    obtain ⟨t₁, t₂, _, h₁, h₂, rfl⟩ := traces_andThen.1 h
    obtain ⟨rfl, rfl⟩ := traces_done.1 h₂
    rw [List.append_nil]
    unfold clearCheckpoints at h₁
    split at h₁
    · obtain ⟨t₃, t₄, x, h₃, h₄, rfl⟩ := traces_andThen.1 h₁
      obtain ⟨rfl, -⟩ := traces_done.1 h₄
      obtain rfl := RunScript.traces_ofRequest.1 h₃
      have hidle : (RunScript.request (.clear scope.runId) : RunScript κ _).AsksOnly Inquiry.IsIdle :=
        asksOnly_request.2 (Inquiry.isIdle_of_site rfl (by rintro _ ⟨⟩))
      refine ⟨.of_asksOnly hidle (RunScript.traces_ofRequest.2 rfl), ?_, rfl⟩
      simp [Trace.Bare, Entry.of]
    · obtain ⟨rfl, -⟩ := traces_done.1 h₁
      exact ⟨⟨.nil, rfl⟩, .nil, rfl⟩

/-- What a run tells at its end. -/
def completed (w : Workflow) (scope : Scope) (ending : Ending) (totalMs : Nat) : Event :=
  .workflowCompleted w.name scope.runId (ending.state = .completed) (ending.state = .cancelled) totalMs

/-- **The end of a run**: it settles what it owes, takes the time, and tells how it ended. -/
theorem conclude_settles {began : Nat} {p : Place} {ending : Ending} {x : Execution}
    (h : (r.conclude w scope began p ending).Traces t x) :
    ∃ (u : Trace κ) (now totalMs : Nat),
      t = u ++ [.of .now now, .of (.tell (completed w scope ending totalMs)) ()] ∧
      x.result.steps = resultsAtEnd w ending p.results ∧
      (r.settle w.name scope p.owed ending).Traces u x.compensations := by
  obtain ⟨t₁, t₂, owed, h₁, h₂, rfl⟩ := traces_andThen.1 h
  obtain ⟨t₃, t₄, totalMs, h₃, h₄, rfl⟩ := traces_andThen.1 h₂
  obtain ⟨t₅, t₆, now, h₅, h₆, rfl⟩ := traces_andThen.1 h₃
  obtain ⟨rfl, rfl⟩ := traces_done.1 h₆
  obtain rfl := RunScript.traces_ofRequest.1 h₅
  obtain ⟨t₇, t₈, _, h₇, h₈, rfl⟩ := traces_andThen.1 h₄
  obtain ⟨rfl, rfl⟩ := traces_done.1 h₈
  obtain rfl := RunScript.traces_ofRequest.1 h₇
  refine ⟨t₁, now, now / 1000000 - began / 1000000, ?_, rfl, h₁⟩
  cases ending <;> rfl

/-- And so it comes to what its ending says. -/
theorem conclude_traces {began : Nat} {p : Place} {ending : Ending} {x : Execution}
    (h : (r.conclude w scope began p ending).Traces t x) :
    ∃ (u : Trace κ) (now totalMs : Nat),
      t = u ++ [.of .now now, .of (.tell (completed w scope ending totalMs)) ()] ∧
      x.result.steps = resultsAtEnd w ending p.results ∧
      r.Settling w.name p.owed x.compensations u ending := by
  obtain ⟨u, now, totalMs, ht, hsteps, hsettle⟩ := conclude_settles h
  exact ⟨u, now, totalMs, ht, hsteps, settle_settling hsettle⟩

section Whole

variable {cs : List Completion} {owed : List Compensation} {pre body post : Trace κ}

/-- **A run that did not fail** hands on what its steps left. -/
theorem ledger_unfailed (hk : Ledger r body cs owed) (hc : body.Calm) (hpre : pre.Idle)
    (hbare : pre.Bare) (hpost : post.Bare) (hf : post.failure? = none) (hr : post.rollbacks = []) :
    Ledger r (pre ++ body ++ post) cs owed := by
  have hroll : pre.rollbacks = [] := by
    rw [← hbare.own]
    exact hpre.quiet.calm.own_rollbacks
  refine hk.unfailed (Trace.ends_of_bare hc hbare hpost) ?_ ?_ ?_
  · rw [Trace.failure?_append, Trace.failure?_append, hpre.quiet.calm.failure?_eq_none,
      hc.failure?_eq_none, hf]
    rfl
  · rw [Trace.own_append, Trace.own_append, Trace.rollbacks_append, Trace.rollbacks_append,
      hbare.own, hpost.own, hroll, hc.own_rollbacks, hr]
    rfl
  · rw [Trace.rollbacks_append, Trace.rollbacks_append, hroll, hr]
    exact List.append_nil _

/-- **A run that failed** settles what its steps left. -/
theorem ledger_failed {workflow : String} {settling : Trace κ} (hk : Ledger r body cs owed)
    (hc : body.Calm) (hi : body.compensating = []) (hpre : pre.Idle) (hbare : pre.Bare)
    (hs : r.Compensates workflow owed.reverse settling) (hpost : post.Bare)
    (hf : post.failure? = some workflow) (hr : post.rollbacks = []) (hp : post.compensating = []) :
    Ledger r (pre ++ body ++ (settling ++ post)) cs [] := by
  have hsettling : settling.Bare := fun e he => ⟨(hs.entries e he).1, (hs.entries e he).2.1⟩
  have hroll : pre.rollbacks = [] := by
    rw [← hbare.own]
    exact hpre.quiet.calm.own_rollbacks
  have hends := Trace.ends_of_bare hc hbare (hsettling.append hpost)
  have hfailed : (pre ++ body ++ (settling ++ post)).failure? = some workflow := by
    have hnone : settling.failure? = none := List.findSome?_eq_none_iff.2 fun e he =>
      Entry.failure?_of_isCompensating (hs.entries e (List.mem_filter.1 he).1).2.2
    rw [Trace.failure?_append, Trace.failure?_append, Trace.failure?_append,
      hpre.quiet.calm.failure?_eq_none, hc.failure?_eq_none, hnone, hf]
    rfl
  -- what the run did to compensate is all of `settling` and nothing else
  refine hk.failed hends hfailed ?_ ?_
  · have hself : settling.compensating = settling := by
      rw [Trace.compensating, hsettling.own, List.filter_eq_self]
      exact fun e he => (hs.entries e he).2.2
    simpa [hpre.compensating, hi, hself, hp] using hs
  · rw [Trace.rollbacks_append, Trace.rollbacks_append, Trace.rollbacks_append, hroll, hr,
      hs.rollbacks, List.append_nil, List.nil_append]
    exact ((List.reverse_perm owed).map _).append_left _

end Whole

/-- What a run whose steps lie along the way leaves in the end. -/
theorem ending_kept {p : Place} {new : List StepResult} {cs : List Completion} {e : Effects}
    {c : Context} {pre body settling : Trace κ} {left : List Compensation} {ending : Ending}
    {now totalMs : Nat} (ha : Along r w.steps { context := c } body p new cs e)
    (hpre : pre.Idle) (hbare : pre.Bare) (hs : r.Settling w.name p.owed left settling ending) :
    Kept r (∀ s ∈ w.steps, s.Distinct r) (pre ++ body ++
      (settling ++ [.of .now now, .of (.tell (completed w scope ending totalMs)) ()])) cs
      ⟨e.outputs, left⟩ (StepResult.recordedAlong w.steps new) := by
  have hlast : Trace.Bare ([.of .now now,
      .of (.tell (completed w scope ending totalMs)) ()] : Trace κ) := by
    simp [Trace.Bare, Entry.of]
  have hsettling : settling.Bare := by
    cases ending with
    | failed error => exact fun e he => ⟨(hs.1.entries e he).1, (hs.1.entries e he).2.1⟩
    | cancelled => exact hs.2.1
    | finished => exact hs.2.1
  have howed : p.owed = e.compensations := ha.owed
  refine ⟨?_, ha.kept.memory.ends ha.kept.ledger.lists
    (Trace.ends_of_bare ha.calm hbare (hsettling.append hlast))
    (Trace.undone_of_bare ha.calm hbare (hsettling.append hlast))⟩
  cases ending with
  | failed error =>
    obtain ⟨hcomp, rfl⟩ := hs
    rw [howed] at hcomp
    exact ledger_failed ha.kept.ledger ha.calm ha.idle hpre hbare hcomp hlast rfl rfl rfl
  | cancelled =>
    obtain ⟨hidle, _, rfl⟩ := hs
    rw [howed]
    refine ledger_unfailed ha.kept.ledger ha.calm hpre hbare (hsettling.append hlast) ?_ ?_
    · rw [Trace.failure?_append, hidle.quiet.calm.failure?_eq_none]
      rfl
    · rw [Trace.rollbacks_append, ← hsettling.own, hidle.quiet.calm.own_rollbacks]
      rfl
  | finished =>
    obtain ⟨hidle, _, rfl⟩ := hs
    rw [howed]
    refine ledger_unfailed ha.kept.ledger ha.calm hpre hbare (hsettling.append hlast) ?_ ?_
    · rw [Trace.failure?_append, hidle.quiet.calm.failure?_eq_none]
      rfl
    · rw [Trace.rollbacks_append, ← hsettling.own, hidle.quiet.calm.own_rollbacks]
      rfl

/-! ## From the beginning to the end -/

/-- The checkpoint that a run saves after a step, if it does. -/
def saving (w : Workflow) (scope : Scope) (inputs : Fields) (s : Step) (results : List StepResult) :
    RunScript κ (Except CheckpointError Unit) :=
  if s.checkpoint && scope.persist then saveCheckpoint w scope inputs s.name results
  else .done (.ok ())

/-- What is left of a run that began at a time and stands at a place. -/
def goOn (r : Runner κ) (execute : Execute κ) (w : Workflow) (inputs : Fields) (scope : Scope)
    (began : Nat) (rest : List Step) (p : Place) : RunScript κ (Except Refusal Execution) :=
  (steps (fun c s => r.step execute c scope s) (saving w scope inputs) rest p).andThen fun (p, ending) =>
    (r.conclude w scope began p ending).andThen fun x => .done (.ok x)

/-- The place where a run begins. -/
def start (r : Runner κ) (inputs : Fields) : Place := { context := ⟨inputs, [], r.config.values⟩ }

/-- The turns at which a run begins. -/
def begun (w : Workflow) (scope : Scope) (began recorded : Nat) : History (Inquiry κ) Inquiry.Answer :=
  [.asked ⟨{ request := .now }, began⟩,
    .asked ⟨{ request := .tell (.workflowStarted w.name scope.runId w.steps.length recorded) }, ()⟩]

/-- **A run** takes the time, tells that it starts, and goes on from the place of its records. -/
theorem executeFrom_eq (recorded : List StepResult) :
    r.executeFrom execute recorded w inputs scope =
      if w.steps.isEmpty then .done (.error (.noSteps w.name))
      else match Place.replay 0 w.steps recorded (r.start inputs) with
        | .error e => .done (.error e)
        | .ok p => RunScript.now.andThen fun began =>
          (RunScript.tell (.workflowStarted w.name scope.runId w.steps.length
            recorded.length)).andThen fun _ =>
            r.goOn execute w inputs scope began (w.steps.drop recorded.length) p := rfl

/-- What a run asks after a step to save its checkpoint. -/
theorem asksOnly_saving_of {b : Inquiry κ → Prop} {s : Step} {results : List StepResult}
    (hid : b { request := .freshId }) (htoday : b { request := .today })
    (hsave : ∀ run c, b { request := .save run c })
    (htell : ∀ id, b { request := .tell (.checkpointSaved w.name scope.runId s.name id) }) :
    (saving w scope inputs s results : RunScript κ _).AsksOnly b := by
  unfold saving
  split
  · refine (asksOnly_request.2 hid).andThen fun id => (asksOnly_request.2 htoday).andThen fun savedAt =>
      (asksOnly_request.2 (hsave _ _)).andThen fun saved => ?_
    split
    · trivial
    · exact (asksOnly_request.2 (htell id)).andThen fun _ => trivial
  · trivial

theorem asksOnly_saving (s : Step) (results : List StepResult) :
    (saving w scope inputs s results : RunScript κ _).AsksOnly Inquiry.IsIdle := by
  refine asksOnly_saving_of (Inquiry.isIdle_of_site rfl (by rintro _ ⟨⟩))
    (Inquiry.isIdle_of_site rfl (by rintro _ ⟨⟩))
    (fun _ _ => Inquiry.isIdle_of_site rfl (by rintro _ ⟨⟩))
    fun _ => Inquiry.isIdle_of_site rfl ?_
  rintro _ ⟨⟩
  rfl

theorem recordedOutputsOf_cancelled (steps : List Step) :
    StepResult.recordedOutputsOf (steps.map StepResult.cancelled) = [] := by
  induction steps with
  | nil => rfl
  | cons s rest ih =>
    rw [List.map_cons, StepResult.recordedOutputsOf, ih]
    rfl

/-- Steps that a run did not reach record nothing. -/
theorem recordedOutputsOf_resultsAtEnd (ending : Ending) (results : List StepResult) :
    StepResult.recordedOutputsOf (resultsAtEnd w ending results) =
      StepResult.recordedOutputsOf results := by
  cases ending with
  | cancelled =>
    rw [resultsAtEnd, StepResult.recordedOutputsOf_append, recordedOutputsOf_cancelled,
      List.append_nil]
  | finished => rfl
  | failed error => rfl

theorem recordedAlong_outputs {ss : List Step} {new : List StepResult}
    (h : new.map StepResult.name <+: ss.map Step.name) :
    (StepResult.recordedAlong ss new).outputs = StepResult.recordedOutputsOf new := by
  induction new generalizing ss with
  | nil =>
    rw [StepResult.recordedAlong_nil]
    rfl
  | cons result rest ih =>
    cases ss with
    | nil => exact absurd (List.prefix_nil.1 h) nofun
    | cons s ss =>
      rw [StepResult.recordedAlong, StepResult.recordedOutputsOf, Effects.outputs_append,
        ih (List.cons_prefix_cons.1 h).2]
      rfl

/-- The results of a run are those of steps of its workflow. -/
theorem exists_step_of_mem_resultsAtEnd {ending : Ending} {new : List StepResult}
    (h : new.map StepResult.name <+: w.steps.map Step.name) {result : StepResult}
    (hm : result ∈ resultsAtEnd w ending new) : ∃ s ∈ w.steps, s.name = result.name := by
  have hnew : ∀ result ∈ new, ∃ s ∈ w.steps, s.name = result.name := fun result hr =>
    List.mem_map.1 (h.subset (List.mem_map_of_mem hr))
  cases ending with
  | cancelled =>
    obtain hm | hm := List.mem_append.1 hm
    · exact hnew result hm
    · obtain ⟨s, hs, rfl⟩ := List.mem_map.1 hm
      exact ⟨s, List.mem_of_mem_drop hs, rfl⟩
  | finished => exact hnew result hm
  | failed error => exact hnew result hm

/-- **What happens in a whole run**: it begins, takes its steps, settles what it owes, and ends. -/
theorem executeFrom_traces (hk : ∀ s ∈ w.steps, ∀ c, s.Keeps r (r.step execute c scope s))
    {x : Execution} (h : (r.executeFrom execute [] w inputs scope).Traces t (.ok x)) :
    (∀ result ∈ x.result.steps, ∃ s ∈ w.steps, s.name = result.name) ∧
      ∃ cs outputs memo, Kept r (∀ s ∈ w.steps, s.Distinct r) t cs ⟨outputs, x.compensations⟩ memo ∧
        memo.outputs = StepResult.recordedOutputsOf x.result.steps := by
  rw [executeFrom_eq] at h
  split at h
  · exact absurd (traces_done.1 h).2 nofun
  · rw [Place.replay] at h
    obtain ⟨t₁, t₂, began, h₁, h₂, rfl⟩ := traces_andThen.1 h
    obtain ⟨t₃, t₄, _, h₃, h₄, rfl⟩ := traces_andThen.1 h₂
    obtain ⟨t₅, t₆, ⟨p, ending⟩, h₅, h₆, rfl⟩ := traces_andThen.1 h₄
    obtain ⟨t₇, t₈, x', h₇, h₈, rfl⟩ := traces_andThen.1 h₆
    obtain ⟨rfl, hx⟩ := traces_done.1 h₈
    injection hx with hx
    subst hx
    obtain rfl := RunScript.traces_ofRequest.1 h₁
    obtain rfl := RunScript.traces_ofRequest.1 h₃
    rw [List.length_nil, List.drop_zero] at h₅
    obtain ⟨new, cs, e, ha⟩ := steps_along hk (fun s results => asksOnly_saving s results) h₅
    obtain ⟨settling, now, totalMs, rfl, hsteps, hs⟩ := conclude_traces h₇
    have hnew : p.results = new := ha.results
    have hpre : Trace.Idle ([.of .now began, .of (.tell (.workflowStarted w.name scope.runId
        w.steps.length 0)) ()] : Trace κ) := by
      refine .of_asksOnly (s := RunScript.now.andThen fun _ =>
        RunScript.tell (.workflowStarted w.name scope.runId w.steps.length 0)) ?_
        (traces_andThen.2 ⟨_, _, began, h₁, h₃, rfl⟩)
      refine AsksOnly.andThen (asksOnly_request.2 (Inquiry.isIdle_of_site rfl (by rintro _ ⟨⟩)))
        fun _ => asksOnly_request.2 (Inquiry.isIdle_of_site rfl ?_)
      rintro _ ⟨⟩
      rfl
    have hbare : Trace.Bare ([.of .now began, .of (.tell (.workflowStarted w.name scope.runId
        w.steps.length 0)) ()] : Trace κ) := by
      simp [Trace.Bare, Entry.of]
    -- the results at the end are those of the way, and of steps that were not reached
    rw [hsteps, hnew]
    refine ⟨fun result hm => exists_step_of_mem_resultsAtEnd ha.names hm, cs, e.outputs,
      StepResult.recordedAlong w.steps new, ?_, ?_⟩
    · rw [← List.append_assoc, List.append_nil]
      exact ending_kept ha hpre hbare hs
    · rw [recordedOutputsOf_resultsAtEnd, recordedAlong_outputs ha.names]

/-- A run that went on to its end is not refused. -/
theorem goOn_ok {began : Nat} {rest : List Step} {p : Place} {h : History (Inquiry κ) Inquiry.Answer}
    {x : Except Refusal Execution}
    (u : (r.goOn execute w inputs scope began rest p).Unfolds h x) : ∃ y, x = .ok y := by
  obtain ⟨h₁, h₂, ⟨p, ending⟩, -, u₂, rfl⟩ := unfolds_andThen.1 u
  obtain ⟨h₃, h₄, y, -, u₄, rfl⟩ := unfolds_andThen.1 u₂
  exact ⟨y, (unfolds_done.1 u₄).2⟩

/-- **A run that is refused is refused at once**: its script is done before it begins. -/
theorem executeFrom_error {recorded : List StepResult} {h : History (Inquiry κ) Inquiry.Answer}
    {e : Refusal} (u : (r.executeFrom execute recorded w inputs scope).Unfolds h (.error e)) :
    r.executeFrom execute recorded w inputs scope = .done (.error e) := by
  rw [executeFrom_eq] at u ⊢
  split at u
  · rename_i hsteps
    rw [if_pos hsteps, (unfolds_done.1 u).2]
  · rename_i hsteps
    rw [if_neg hsteps]
    split at u
    · rw [(unfolds_done.1 u).2]
    · obtain ⟨h₁, h₂, began, -, u₂, rfl⟩ := unfolds_andThen.1 u
      obtain ⟨h₃, h₄, _, -, u₄, rfl⟩ := unfolds_andThen.1 u₂
      obtain ⟨y, hy⟩ := goOn_ok u₄
      contradiction

/-- So it does nothing. -/
theorem executeFrom_refused {recorded : List StepResult} {e : Refusal}
    (h : (r.executeFrom execute recorded w inputs scope).Traces t (.error e)) : t = [] := by
  obtain ⟨h, u, rfl⟩ := h
  rw [executeFrom_error u] at u
  rw [(unfolds_done.1 u).1, exchanges_nil]

theorem executeFrom_prompt (recorded : List StepResult) :
    (r.executeFrom execute recorded w inputs scope).Prompt := by
  rw [executeFrom_eq]
  split
  · trivial
  · split <;> trivial

/-- A run keeps account if its steps do. -/
theorem executeFrom_keeps (hk : ∀ s ∈ w.steps, ∀ c, s.Keeps r (r.step execute c scope s)) :
    w.Keeps r (r.executeFrom execute [] w inputs scope) where
  refused _ _ := executeFrom_refused
  names _ _ h := (executeFrom_traces hk h).1
  kept _ _ h := by
    obtain ⟨-, cs, outputs, memo, hkept, hmemo⟩ := executeFrom_traces hk h
    exact ⟨cs, outputs, (hkept.mono False.elim).congr hmemo False.elim⟩

theorem execute_prompt (levels : Nat) : (r.execute levels w inputs scope).Prompt := by
  cases levels with
  | zero => trivial
  | succ levels => exact executeFrom_prompt []

/-- **Every run inside a step keeps account**, by induction on the levels of nesting. -/
theorem execute_keeps (levels : Nat) (w : Workflow) (inputs : Fields) (scope : Scope) :
    w.Keeps r (r.execute levels w inputs scope) := by
  induction levels generalizing w inputs scope with
  | zero =>
    constructor
    · exact fun _ _ h => (traces_done.1 h).1
    · exact fun _ _ h => absurd (traces_done.1 h).2 nofun
    · exact fun _ _ h => absurd (traces_done.1 h).2 nofun
  | succ levels ih =>
    exact executeFrom_keeps fun s _ c => step_keeps ih (fun _ _ _ => execute_prompt levels) s c scope

/-- So every step of a run does. -/
theorem steps_keep (r : Runner κ) (s : Step) (c : Context) (scope : Scope) :
    s.Keeps r (r.step (r.execute r.levels) c scope s) :=
  step_keeps (execute_keeps r.levels) (fun _ _ _ => execute_prompt r.levels) s c scope

end Runner

end Stepflow
