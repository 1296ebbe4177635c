import Stepflow.Proofs.Run.Asking
import Stepflow.Proofs.Run.Recording

/-!
# Where a run asks for a checkpoint

Only a run itself asks for checkpoints to be saved, after a step that is done; runs inside steps do
not. When it asks, it stands at a place: the results that it saves are those of the place, and it goes
on from there once they are saved. `run_saves` finds the place, and the way from the beginning of
the run to it.
-/

namespace Stepflow

open Script

variable {κ : Type} {α β : Type} {r : Runner κ} {w : Workflow} {scope : Scope} {given : Fields}
  {s : Step} {ss : List Step} {p : Place} {execute : Execute κ}
  {h : History (Inquiry κ) Inquiry.Answer} {q : Inquiry κ} {inputs : Fields}

/-- The request asks to save a checkpoint. -/
def Inquiry.Saves (q : Inquiry κ) : Prop := ∃ run c, q.request = .save run c

/-- The script asks to save a checkpoint. -/
def RunScript.AsksToSave (s : RunScript κ α) (c : Checkpoint) : Prop :=
  ∃ (q : Inquiry κ) (next : q.Answer → RunScript κ α) (run : String),
    s = .ask q next ∧ q.request = .save run c

/-- The request saves nothing. -/
def Inquiry.SavesNothing (q : Inquiry κ) : Prop := ∀ run c, q.request ≠ .save run c

theorem Inquiry.IsWork.savesNothing (hq : q.IsWork) : q.SavesNothing := by
  intro run c hr
  cases hq <;> contradiction

theorem Inquiry.savesNothing_tell {site : Site} {step : Option Step} {e : Event} :
    Inquiry.SavesNothing { site, step, request := .tell e : Inquiry κ } := nofun

theorem Inquiry.savesNothing_freshId : Inquiry.SavesNothing { request := .freshId : Inquiry κ } :=
  nofun

theorem Inquiry.savesNothing_today : Inquiry.SavesNothing { request := .today : Inquiry κ } := nofun

theorem Inquiry.savesNothing_clear {run : String} :
    Inquiry.SavesNothing { request := .clear run : Inquiry κ } := nofun

theorem Inquiry.SavesNothing.not_saves (hn : q.SavesNothing) : ¬ q.Saves :=
  fun ⟨run, c, hr⟩ => hn run c hr

/-- A script that saves nothing does not lead to a request that does. -/
theorem Script.AsksOnly.not_saves {s : RunScript κ α} {next : q.Answer → RunScript κ α}
    (hs : s.AsksOnly Inquiry.SavesNothing) (l : s.Leads h (.ask q next)) : ¬ q.Saves :=
  (hs.of_leads l).1.not_saves

/-- **A bound that steps keep**: it allows the work of tries, and events of all kinds, in any layer. -/
structure Inquiry.AllowsSteps (b : Inquiry κ → Prop) : Prop where
  /-- It allows work. -/
  work : ∀ q, q.IsWork → b q
  /-- It allows events. -/
  tell : ∀ site step e, b { site, step, request := .tell e }
  /-- And it does not look at the layers. -/
  into : ∀ q l, b q → b (q.into l)

theorem Inquiry.allowsSteps_savesNothing : AllowsSteps (κ := κ) Inquiry.SavesNothing :=
  ⟨fun _ => IsWork.savesNothing, fun _ _ _ => savesNothing_tell, fun _ _ => id⟩

namespace Runner

/-! ## Who does not ask -/

section

variable {b : Inquiry κ → Prop} (hb : Inquiry.AllowsSteps b)

include hb

theorem asksOnly_step {levels : Nat}
    (he : ∀ w inputs (scope : Scope), scope.persist = false →
      (r.execute levels w inputs scope).AsksOnly b) (c : Context) (s : Step) :
    (r.step (r.execute levels) c scope s).AsksOnly b := by
  refine (step_works hb.work (fun _ _ _ => hb.tell _ _ _) (fun q l _ => hb.into q l)
    (fun _ w inputs scope hs => ?_) c scope).asks
  refine ⟨RunScript.prompt_under (execute_prompt levels), RunScript.asksOnly_under ?_⟩
  exact (he w inputs scope hs).mono fun q => hb.into q _

/-- **Runs inside steps do not touch the store**: they ask what steps may ask. -/
theorem asksOnly_execute (levels : Nat) (w : Workflow) (inputs : Fields) (scope : Scope)
    (hs : scope.persist = false) : (r.execute levels w inputs scope).AsksOnly b := by
  induction levels generalizing w inputs scope with
  | zero => trivial
  | succ levels ih =>
    refine asksOnly_executeFrom hb.work (fun _ _ => hb.tell _ _ _) (fun hp => ?_) (fun c s _ k => ?_)
      fun s results => ?_
    · rw [hs] at hp
      contradiction
    · exact RunScript.asksOnly_under ((asksOnly_step hb ih c s).mono fun q => hb.into q _)
    · unfold saving
      rw [hs, Bool.and_false]
      trivial

/-- **Nor do the steps of a run.** -/
theorem asksOnly_steps_of_run (c : Context) (s : Step) :
    (r.step (r.execute r.levels) c scope s).AsksOnly b :=
  asksOnly_step hb (asksOnly_execute hb r.levels) c s

end

/-! ## Who asks -/

/-- The checkpoint of the results at a place. -/
def checkpointOf (w : Workflow) (given : Fields) (id : String) (savedAt : Instant)
    (results : List StepResult) : Checkpoint :=
  { id, workflow := w.name, inputsHash := inputsHash given, steps := results, savedAt }

/-- What a run does once it is answered whether a checkpoint was saved. -/
def noteSaved (w : Workflow) (scope : Scope) (s : Step) (id : String) :
    Except CheckpointError Unit → RunScript κ (Except CheckpointError Unit)
  | .error e => .done (.error e)
  | .ok () =>
    (RunScript.tell (.checkpointSaved w.name scope.runId s.name id)).andThen fun _ => .done (.ok ())

/-- A run that asks for a checkpoint asks for one of its results. -/
theorem saving_leads_save {results : List StepResult}
    {next : q.Answer → RunScript κ (Except CheckpointError Unit)}
    (l : (saving w scope given s results).Leads h (.ask q next)) (hq : q.Saves) :
    scope.persist = true ∧ Trace.Idle (exchanges h) ∧ ∃ id savedAt,
      Script.ask q next = .ask
        { request := .save scope.runId (checkpointOf w given id savedAt results) }
        (noteSaved w scope s id) := by
  have hidle : ∀ {request : Request κ} {h : History (Inquiry κ) Inquiry.Answer} {x : request.Answer},
      Inquiry.IsIdle { request } → (RunScript.request request).Unfolds h x →
        Trace.Idle (exchanges h) := fun hi u => .of_asksOnly (asksOnly_request.2 hi) u.traces
  unfold saving at l
  split at l
  · rename_i hpersist
    obtain ⟨_, l₁, -⟩ | ⟨h₁, h₂, id, u₁, l₁, rfl⟩ := leads_andThen_ask l
    · exact absurd hq (AsksOnly.not_saves (asksOnly_request.2 Inquiry.savesNothing_freshId) l₁)
    obtain ⟨_, l₂, -⟩ | ⟨h₃, h₄, savedAt, u₂, l₂, rfl⟩ := leads_andThen_ask l₁
    · exact absurd hq (AsksOnly.not_saves (asksOnly_request.2 Inquiry.savesNothing_today) l₂)
    obtain ⟨next₁, l₃, rfl⟩ | ⟨h₅, h₆, saved, -, l₃, rfl⟩ := leads_andThen_ask l₂
    -- here it is the request itself; what comes before it was idle
    · obtain ⟨rfl, hr⟩ := leads_request_ask l₃
      injection hr with hq' hn
      subst hq'
      obtain rfl := eq_of_heq hn
      refine ⟨(Bool.and_eq_true_iff.1 hpersist).2, ?_, id, savedAt, ?_⟩
      · rw [List.append_nil, exchanges_append]
        exact (hidle (Inquiry.isIdle_of_site rfl (by rintro _ ⟨⟩)) u₁).append
          (hidle (Inquiry.isIdle_of_site rfl (by rintro _ ⟨⟩)) u₂)
      · refine congrArg (Script.ask _) (funext fun saved => ?_)
        rcases saved with e | _ <;> rfl
    · refine absurd hq (AsksOnly.not_saves ?_ l₃)
      split
      · trivial
      · exact (asksOnly_request.2 Inquiry.savesNothing_tell).andThen fun _ => trivial
  · exact absurd l not_leads_ask

/-- What a run on its way from step to step does once it is answered whether the checkpoint after a
step was saved. -/
def carryOn (r : Runner κ) (execute : Execute κ) (w : Workflow) (scope : Scope) (given : Fields)
    (s : Step) (rest : List Step) (p : Place) :
    Except CheckpointError Unit → RunScript κ (Place × Ending)
  | .ok () => steps (fun c s => r.step execute c scope s) (saving w scope given) rest p
  | .error e =>
    .done (p, .failed ("checkpoint after step '" ++ s.name ++ "' failed: " ++ e.message))

/-- A run on its way from the place `p` along the steps `ss` makes a request to save the results at
another place, which it has come to with its last step. -/
def AsksOnTheWay (r : Runner κ) (execute : Execute κ) (w : Workflow) (scope : Scope) (given : Fields)
    (ss : List Step) (p : Place) (h : History (Inquiry κ) Inquiry.Answer) (q : Inquiry κ)
    (next : q.Answer → RunScript κ (Place × Ending)) : Prop :=
  ∃ h₁ h₂ before s rest p' new cs e next₁, h = h₁ ++ h₂ ∧ ss = before ++ s :: rest ∧
    Along r ss p (exchanges h₁) p' new cs e ∧ new.length = before.length + 1 ∧
    ((∀ s ∈ ss, ∀ c, s.Records (r.step execute c scope s)) →
      e = StepResult.recordedAlong ss new) ∧
    (saving w scope given s p'.results).Leads h₂ (.ask q next₁) ∧
    next = fun x => (next₁ x).andThen (r.carryOn execute w scope given s rest p')

/-- **A run on its way from step to step** that asks for a checkpoint has just taken a step, and stands
at the place after it. -/
theorem steps_leads_save {next : q.Answer → RunScript κ (Place × Ending)}
    (hk : ∀ s ∈ ss, ∀ c, s.Keeps r (r.step execute c scope s))
    (hrun : ∀ c s, (r.step execute c scope s).AsksOnly Inquiry.SavesNothing)
    (l : (steps (fun c s => r.step execute c scope s) (saving w scope given) ss p).Leads h
      (.ask q next)) (hq : q.Saves) : r.AsksOnTheWay execute w scope given ss p h q next := by
  obtain ⟨h₁, h₂, s, rest, p', hpasses, ha, rfl⟩ := steps_leads l
  obtain ⟨before, -, hss, -⟩ := hpasses.behind hk
  have hs : s ∈ ss := hss ▸ List.mem_append_right before List.mem_cons_self
  cases ha with
  | poll => exact absurd hq (Inquiry.SavesNothing.not_saves Inquiry.IsWork.isCancelled.savesNothing)
  | inside hl =>
    exact absurd hq (AsksOnly.not_saves (RunScript.asksOnly_under (hrun p'.context s)) hl)
  | @saving h₂ h₃ o q next ht hdone hl =>
    obtain ⟨cs, hstep⟩ := ht.along (hk s hs) rest
    obtain ⟨before, passed, ds, e', rfl, hlength, hway, hexact⟩ :=
      hpasses.along_append hk (fun s results => asksOnly_saving s results) hstep
    have hcarry : afterSaving (fun c s => r.step execute c scope s) (saving w scope given) s rest
        (p'.after o) = r.carryOn execute w scope given s rest (p'.after o) := funext fun saved => by
      rcases saved with e | _ <;> rfl
    refine ⟨h₁ ++ h₂, h₃, before, s, rest, p'.after o, passed ++ [o.result], ds, e', next, ?_, rfl, ?_,
      ?_, fun hr => hexact hr ?_, hl, ?_⟩
    · rw [List.append_assoc]
    · rw [exchanges_append]
      exact hway
    · rw [List.length_append, hlength, List.length_singleton]
    · rw [StepResult.recordedAlong_singleton]
      exact ht.records (hr s hs) (StepResult.success_of_isDone hdone)
    · rw [hcarry]

/-! ## The whole run -/

/-- What is left of a run once it is answered whether the checkpoint after a step was saved. -/
def afterSave (r : Runner κ) (execute : Execute κ) (w : Workflow) (given : Fields) (scope : Scope)
    (began : Nat) (s : Step) (id : String) (rest : List Step) (p : Place) :
    Except CheckpointError Unit → RunScript κ (Except Refusal Execution)
  | .ok () =>
    (RunScript.tell (.checkpointSaved w.name scope.runId s.name id)).andThen fun _ =>
      r.goOn execute w given scope began rest p
  | .error e =>
    (r.conclude w scope began p
      (.failed ("checkpoint after step '" ++ s.name ++ "' failed: " ++ e.message))).andThen fun x =>
        .done (.ok x)

/-- **Where a run asks for the checkpoint `c`**: it stands at the place `p` after the exchanges `t`, and
`s'` is what is left of it. -/
structure Saves (r : Runner κ) (w : Workflow) (id : String) (given : Fields) (t : Trace κ)
    (s' : RunScript κ (Except Refusal Execution)) (c : Checkpoint) (p : Place)
    (cs : List Completion) (e : Effects) : Prop where
  /-- The run has a store to save it in. -/
  hasStore : r.hasStore = true
  /-- The workflow has steps. -/
  hasSteps : w.steps.isEmpty = false
  /-- Its steps from the beginning lie along the way. -/
  along : Along r w.steps (r.start given) t p c.steps cs e
  /-- The steps taken have left what their results record, if all steps do so. -/
  exact : (∀ s ∈ w.steps, ∀ c, s.Records (r.step (r.execute r.levels) c (.root w.name id true) s)) →
    e = StepResult.recordedAlong w.steps c.steps
  /-- The checkpoint is one of this run. -/
  checkpoint : c = checkpointOf w given c.id c.savedAt p.results
  /-- The run goes on from the place. -/
  left : ∃ began s, s' = .ask { request := .save id c } (r.afterSave (r.execute r.levels) w given
    (.root w.name id true) began s c.id (w.steps.drop c.steps.length) p)

/-- What a run does before its steps is idle. -/
theorem begun_idle (w : Workflow) (scope : Scope) (began recorded : Nat) :
    Trace.Idle (exchanges (begun w scope began recorded : History (Inquiry κ) Inquiry.Answer)) := by
  have hnow : Trace.Idle ([.of .now began] : Trace κ) := .of_asksOnly
    (asksOnly_request.2 (Inquiry.isIdle_of_site rfl (by rintro _ ⟨⟩))) (RunScript.traces_ofRequest.2 rfl)
  have htell : Trace.Idle ([.of (.tell (.workflowStarted w.name scope.runId w.steps.length recorded)) ()] :
      Trace κ) := .of_asksOnly
    (asksOnly_request.2 (Inquiry.isIdle_of_site rfl (by rintro _ ⟨⟩; rfl)))
    (RunScript.traces_ofRequest.2 rfl)
  exact hnow.append htell

/-- **Every checkpoint that a run asks for** is one of the place where it stands. -/
theorem run_saves {id : String} {s' : RunScript κ (Except Refusal Execution)} {c : Checkpoint}
    (l : (r.run w id inputs).Leads h s') (hc : s'.AsksToSave c) :
    ∃ given p cs e, w.resolveInputs inputs = .ok given ∧
      r.Saves w id given (exchanges h) s' c p cs e := by
  obtain ⟨q, next, run, rfl, hr⟩ := hc
  have hq : q.Saves := ⟨run, c, hr⟩
  obtain ⟨given, began, h', next', hgiven, hsteps, rfl, l', rfl⟩ :=
    run_leads_ask (fun _ hq => hq.isWork.savesNothing) (fun _ => Inquiry.savesNothing_tell)
      (fun _ => Inquiry.savesNothing_clear) Inquiry.IsWork.now.savesNothing (fun hn => hn.not_saves hq) l
  obtain ⟨h₁, h₂, before, s, rest, p, new, cs, e, next₂, rfl, hss, ha, hlen, hexact, hl, rfl⟩ :=
    steps_leads_save (fun s _ c => steps_keep r s c _)
      (asksOnly_steps_of_run Inquiry.allowsSteps_savesNothing) l' hq
  obtain ⟨hpersist, hidle, cid, savedAt, heq⟩ := saving_leads_save hl hq
  injection heq with hq' hnext
  subst hq'
  obtain rfl := eq_of_heq hnext
  injection hr with _ hr
  subst hr
  have hstore : r.hasStore = true := hpersist
  have hnew : p.results = new := ha.results
  have hleft : w.steps.drop p.results.length = rest := by
    rw [hnew, hlen, hss, List.drop_length_add_append]
    rfl
  refine ⟨given, p, cs, e, hgiven, hstore, hsteps, ?_, fun hr => ?_, rfl, began, s, ?_⟩
  · have hbegun := begun_idle (κ := κ) w (.root w.name id r.hasStore) began 0
    have hway := (ha.idle_append hbegun).append_idle hidle
    rw [← exchanges_append, ← exchanges_append] at hway
    simp only [checkpointOf, hnew, ← List.append_assoc]
    exact hway
  · rw [hstore] at hexact
    simp only [checkpointOf, hnew]
    exact hexact hr
  · simp only [checkpointOf, hleft, ← hstore]
    refine congrArg (Script.ask _) (funext fun saved => ?_)
    rcases saved with error | _ <;> rfl

end Runner

end Stepflow
