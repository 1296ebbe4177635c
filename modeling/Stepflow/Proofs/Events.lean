import Stepflow.Proofs.Endings
import Stepflow.Proofs.Run.Parts
import Stepflow.Proofs.Run.Told

/-!
# What runs tell

The events of a run are brackets. A run tells that it starts before all else and that it has ended
after all else; a step tells the same of itself, unless it is skipped or cancelled before it starts,
and then it only tells that it has ended. What is told inside a step, by steps and runs further in, is
told between the two. `RunTold` says of one run what `StepTold` says of one step, and since every part
of a run is one of these or a try of a step, which tells nothing itself, the whole trace is well formed
however its parts are interleaved (`ran_told`).
-/

namespace Stepflow

open Script

variable {κ : Type} {r : Runner κ} {w w' : Workflow} {scope scope' : Scope} {s : Step} {t : Trace κ}
  {h : History (Inquiry κ) Inquiry.Answer} {o : StepOutcome} {x : Execution} {p q : Place} {site : Site}

namespace Runner

/-! ## Runs -/

/-- **What a run tells of a checkpoint** after a step: that it was saved, if the step is to have one and
the run saves any, or nothing. -/
inductive SaveTold (w : Workflow) (scope : Scope) (s : Step) : List Told → Prop
  /-- None was saved. -/
  | none : SaveTold w scope s []
  /-- It was. -/
  | saved (id : String) : s.checkpoint → scope.persist →
      SaveTold w scope s [⟨[], .checkpointSaved w.name scope.runId s.name id⟩]

/-- **What a run tells on its way**, from the step declared at an index on: all that is told inside the
step, the last being the end of the step, then of a checkpoint, then of the steps after it. -/
inductive StepsTold (w : Workflow) (scope : Scope) : (index : Nat) → List Told → Prop
  /-- No step is taken. -/
  | none (index : Nat) : StepsTold w scope index []
  /-- A step is taken. -/
  | step {index : Nat} {s : Step} {result : StepResult} {inner saved rest : List Told} :
      w.steps[index]? = some s → (∀ e ∈ inner, e.site.head? = some (.declared index)) →
      SaveTold w scope s saved → StepsTold w scope (index + 1) rest →
      StepsTold w scope index
        (inner ++ ⟨[.declared index], .stepCompleted scope.workflow result⟩ :: (saved ++ rest))

/-- **What a run tells of compensations**: each starts and ends before the next one starts. -/
inductive RollbacksTold (workflow : String) : List Told → Prop
  /-- There is none. -/
  | none : RollbacksTold workflow []
  /-- One is made, and then others. -/
  | pair {step action : String} {error : Option String} {rest : List Told} :
      RollbacksTold workflow rest →
      RollbacksTold workflow (⟨[], .rollbackStarted workflow step action⟩ ::
        ⟨[], .rollbackCompleted workflow step error⟩ :: rest)

/-- **What a run tells**, with what it comes to, after so many results taken over: that it starts, what
is told on the way, the compensations that it makes, and that it has ended, with the flags of its
result. -/
inductive RunTold (w : Workflow) (scope : Scope) (recorded : Nat) (x : Execution) : List Told → Prop
  | intro {way rollbacks : List Told} {totalMs : Nat} : StepsTold w scope recorded way →
      RollbacksTold w.name rollbacks →
      RunTold w scope recorded x
        (⟨[], .workflowStarted w.name scope.runId w.steps.length recorded⟩ :: (way ++ (rollbacks ++
          [⟨[], .workflowCompleted w.name scope.runId x.result.success x.result.cancelled totalMs⟩])))

theorem saving_told {inputs : Fields} {results : List StepResult} {saved : Except CheckpointError Unit}
    (u : (saving w scope inputs s results : RunScript κ _).Unfolds h saved) :
    SaveTold w scope s (Trace.events (exchanges h)) := by
  obtain ⟨-, rfl, -⟩ | ⟨hsaves, id, savedAt, rfl⟩ := saving_unfolds u
  · exact .none
  · obtain ⟨hcheckpoint, hpersist⟩ := Bool.and_eq_true_iff.1 hsaves
    cases saved with
    | error e => exact .none
    | ok => exact .saved id hcheckpoint hpersist

section Way

variable {levels : Nat} {inputs : Fields} {ss left : List Step} {ending : Ending} {rest : List Told}

/-- What is told while a run takes a step is told inside the step, and last that it has ended. -/
theorem Takes.told
    (ht : Takes (fun c s => r.step (r.execute levels) c scope s) s p h o) :
    ∃ inner, Trace.events (exchanges h) =
        inner ++ [⟨[.declared p.results.length], .stepCompleted scope.workflow o.result⟩] ∧
      ∀ e ∈ inner, e.site.head? = some (.declared p.results.length) := by
  obtain ⟨v, hv, heq⟩ := ht.traces
  obtain ⟨before, hbefore⟩ := (step_told hv).ends
  refine ⟨before.map (Told.into (.declared p.results.length)), ?_, fun e he => ?_⟩
  · rw [heq, Trace.events, List.filterMap_cons]
    show Trace.events _ = _
    rw [Trace.events_into, hbefore, List.map_append]
    rfl
  · obtain ⟨e, -, rfl⟩ := List.mem_map.1 he
    rfl

/-- **A run that has taken a step** has told of it and of its checkpoint, and tells the rest. -/
theorem Takes.stepsTold (hs : w.steps[p.results.length]? = some s)
    (ht : Takes (fun c s => r.step (r.execute levels) c scope s) s p h o)
    {saved : List Told} (hsaved : SaveTold w scope s saved)
    (hrest : StepsTold w scope (p.after o).results.length rest) :
    StepsTold w scope p.results.length (Trace.events (exchanges h) ++ (saved ++ rest)) := by
  obtain ⟨inner, htold, hinner⟩ := ht.told
  rw [htold, List.append_assoc, List.singleton_append]
  refine .step hs hinner hsaved ?_
  rwa [Place.length_results_after] at hrest

theorem Goes.stepsTold (hs : w.steps[p.results.length]? = some s)
    (hgo : Goes (fun c s => r.step (r.execute levels) c scope s) (saving w scope inputs) s p h o)
    (hrest : StepsTold w scope (p.after o).results.length rest) :
    StepsTold w scope p.results.length (Trace.events (exchanges h) ++ rest) := by
  cases hgo with
  | skipped ht _ => exact ht.stepsTold hs .none hrest
  | saved ht _ usave =>
    rw [exchanges_append, Trace.events_append, List.append_assoc]
    exact ht.stepsTold hs (saving_told usave) hrest

/-- **From one place to another** a run tells of the steps that it takes. -/
theorem Passes.stepsTold (hss : w.steps.drop p.results.length = ss)
    (hp : Passes (fun c s => r.step (r.execute levels) c scope s) (saving w scope inputs) ss p h left q)
    (hrest : StepsTold w scope q.results.length rest) :
    StepsTold w scope p.results.length (Trace.events (exchanges h) ++ rest) := by
  induction hp with
  | here => exact hrest
  | @step s ss' left p q o h k hgo _ ih =>
    rw [exchanges_append, Trace.events_append, List.append_assoc]
    exact hgo.stepsTold (Place.getElem?_results hss) (ih (Place.drop_results_after hss) hrest)

theorem Stops.stepsTold (hss : w.steps.drop p.results.length = ss)
    (hstops : Stops (fun c s => r.step (r.execute levels) c scope s) (saving w scope inputs) ss p h q
      ending) : StepsTold w scope p.results.length (Trace.events (exchanges h)) := by
  have hlast : ∀ {s rest o h} (saved : List Told), w.steps.drop p.results.length = s :: rest →
      Takes (fun c s => r.step (r.execute levels) c scope s) s p h o → SaveTold w scope s saved →
      StepsTold w scope p.results.length (Trace.events (exchanges h) ++ saved) :=
    fun saved hss ht hsaved => by
      have := ht.stepsTold (Place.getElem?_results hss) hsaved (.none _)
      rwa [List.append_nil] at this
  cases hstops with
  | finished => exact .none _
  | cancelledBefore s rest => exact .none _
  | cancelled rest ht _ => exact List.append_nil (Trace.events _) ▸ hlast [] hss ht .none
  | failed rest ht _ => exact List.append_nil (Trace.events _) ▸ hlast [] hss ht .none
  | unsaved rest ht _ usave =>
    rw [exchanges_append, Trace.events_append]
    exact hlast _ hss ht (saving_told usave)

end Way

theorem Invokes.told {owed : Compensation} {error : Option String} (h : r.Invokes owed t error) :
    t.events = [] := by
  unfold Invokes at h
  split at h
  · obtain ⟨call, reply, rfl, -⟩ := h
    rfl
  · obtain ⟨rfl, -⟩ := h
    rfl
  · obtain ⟨rfl, -⟩ := h
    rfl

/-- **Compensations are told in pairs.** -/
theorem Compensates.told {workflow : String} {owed : List Compensation}
    (h : r.Compensates workflow owed t) : RollbacksTold workflow t.events := by
  induction h with
  | nil => exact .none
  | @cons owed rest t u error hinvokes _ ih =>
    have htold : Trace.events (t ++ .of (.tell (.rollbackCompleted workflow owed.step error)) () :: u) =
        ⟨[], .rollbackCompleted workflow owed.step error⟩ :: Trace.events u := by
      rw [Trace.events_append, hinvokes.told]
      rfl
    show RollbacksTold workflow (⟨[], .rollbackStarted workflow owed.step owed.action⟩ ::
      Trace.events (t ++ .of (.tell (.rollbackCompleted workflow owed.step error)) () :: u))
    rw [htold]
    exact .pair ih

theorem settle_told {workflow : String} {owed left : List Compensation} {ending : Ending}
    (h : (r.settle workflow scope owed ending).Traces t left) : RollbacksTold workflow t.events := by
  cases ending with
  | failed error =>
    obtain ⟨t₁, t₂, _, h₁, h₂, rfl⟩ := traces_andThen.1 h
    obtain ⟨rfl, -⟩ := traces_done.1 h₂
    rw [List.append_nil]
    exact (rollback_compensates h₁).told
  | cancelled =>
    obtain ⟨rfl, -⟩ := traces_done.1 h
    exact .none
  | finished =>
    have hsilent : (r.settle workflow scope owed .finished).AsksOnly Inquiry.Silent := by
      refine AsksOnly.andThen ?_ fun _ => trivial
      unfold clearCheckpoints
      split
      · exact (asksOnly_request.2 nofun).andThen fun _ => trivial
      · trivial
    rw [Trace.events_of_silent hsilent h]
    exact .none

/-- **What every run tells.** -/
theorem executeFrom_told {levels : Nat} {recorded : List StepResult} {given : Fields}
    (h : (r.executeFrom (r.execute levels) recorded w given scope).Traces t (.ok x)) :
    RunTold w scope recorded.length x t.events := by
  obtain ⟨h, u, rfl⟩ := h
  obtain @⟨p, q, p', left, began, ending, x, h₁, h₂, h₃, hreplay, hpasses, hstops, hends⟩ :=
    executeFrom_course u
  have hp : p.results.length = recorded.length := congrArg List.length (replay_names hreplay).2
  have hdrop : w.steps.drop p.results.length = w.steps.drop recorded.length := by rw [hp]
  have hway : StepsTold w scope recorded.length
      (Trace.events (exchanges h₁) ++ Trace.events (exchanges h₂)) :=
    hp ▸ hpasses.stepsTold hdrop (hstops.stepsTold (hpasses.drop hdrop))
  obtain ⟨v, now, totalMs, heq, -, hsettle⟩ := conclude_settles hends.traces
  have hof := (conclude_unfolds hends).1
  have hend : Trace.events (exchanges h₃) = Trace.events v ++
      [⟨[], .workflowCompleted w.name scope.runId x.result.success x.result.cancelled totalMs⟩] := by
    rw [heq, Trace.events_append, hof.success, hof.cancelled]
    rfl
  have htold : Trace.events (exchanges (begun w scope began recorded.length ++ (h₁ ++ (h₂ ++ h₃)))) =
      ⟨[], .workflowStarted w.name scope.runId w.steps.length recorded.length⟩ ::
        ((Trace.events (exchanges h₁) ++ Trace.events (exchanges h₂)) ++ (Trace.events v ++
          [⟨[], .workflowCompleted w.name scope.runId x.result.success x.result.cancelled totalMs⟩])) := by
    rw [exchanges_append, exchanges_append, exchanges_append, Trace.events_append, Trace.events_append,
      Trace.events_append, hend, List.append_assoc]
    rfl
  rw [htold]
  exact .intro hway (settle_told hsettle)

/-! ## Everything in a run -/

/-- **What a part of a run tells**, as a run, a step, or a try of one. -/
inductive PartTold (r : Runner κ) (w : Workflow) (scope : Scope) : Role → Trace κ → Prop
  /-- It is a run. -/
  | run {levels : Nat} {recorded : List StepResult} {given : Fields} {t : Trace κ} {x : Execution} :
      (r.executeFrom (r.execute levels) recorded w given scope).Traces t (.ok x) →
      RunTold w scope recorded.length x t.events → PartTold r w scope .run t
  /-- It is a step of the workflow. -/
  | step {levels : Nat} {c : Context} {s : Step} {t : Trace κ} {o : StepOutcome} :
      s ∈ w.steps.flatMap Step.subtree → (r.step (r.execute levels) c scope s).Traces t o →
      StepTold c scope s t o t.events → PartTold r w scope .step t
  /-- It is a try of a step, which tells nothing itself. -/
  | attempt {t : Trace κ} : (∀ e ∈ t.events, e.Inner) → PartTold r w scope .attempt t

/-- **Every part of a run where anything happens** tells what such a part does. -/
theorem Part.told {role : Role} (h : r.Part w scope role t) (hne : t ≠ []) :
    r.PartTold w scope role t := by
  cases h with
  | @run levels recorded given t y h =>
    cases y with
    | error e => exact absurd (executeFrom_refused h) hne
    | ok x => exact .run h (executeFrom_told h)
  | step hs h => exact .step hs h (step_told h)
  | attempt _ h => exact .attempt (kindOf_told h)

/-- Runs inside steps save no checkpoints. -/
theorem Enters.persist (he : r.Enters w scope site w' scope') (hp : scope.persist = false ∨ .run ∈ site) :
    scope'.persist = false := by
  induction he with
  | here => exact hp.resolve_right (List.not_mem_nil)
  | inside hl _ ih => exact ih (hp.imp_right fun h => (List.mem_cons.1 h).resolve_left hl.symm)
  | nested hn _ ih =>
    obtain ⟨-, -, -⟩ := hn
    exact ih (.inl rfl)

/-- **The events of a step enclose** all that is told inside it. -/
inductive Encloses (site : Site) (told : List Told) : Prop
  | intro {before inner after : List Told} {workflow name workflow' : String} {type : StepType}
      {result : StepResult} :
      told = before ++ ⟨site, .stepStarted workflow name type⟩ ::
        (inner ++ ⟨site, .stepCompleted workflow' result⟩ :: after) →
      (∀ e ∈ before, ¬ site <+: e.site) → (∀ e ∈ inner, e.site ≠ site) →
      (∀ e ∈ after, ¬ site <+: e.site) → Encloses site told

/-- **The trace of a run is well formed.** -/
structure WellTold (r : Runner κ) (w : Workflow) (scope : Scope) (recorded : Nat) (x : Execution)
    (t : Trace κ) : Prop where
  /-- The run tells what a run tells. -/
  whole : RunTold w scope recorded x t.events
  /-- And so does everything in it: wherever anything happens it is a run, a step or a try of one, and
  what is told there is what this tells. -/
  inside : ∀ l site, t.inside (l :: site) ≠ [] → ∃ w' scope',
    r.Enters w scope (l :: site) w' scope' ∧
      r.PartTold w' scope' (roleAt (l :: site)) (t.inside (l :: site))
  /-- Whatever is told inside a step is told between its start and its end. -/
  enclosed : ∀ e ∈ t.events, ∀ site, roleAt site = .step → site <+: e.site → e.site ≠ site →
    Encloses site t.events
  /-- Checkpoints are saved by the run itself and by none inside it. -/
  saved : ∀ workflow id step checkpoint site,
    ⟨site, .checkpointSaved workflow id step checkpoint⟩ ∈ t.events → site = []
  /-- Every step, with whatever outcome it gives, tells what a step tells. -/
  steps : ∀ levels c scope (s : Step) u o, (r.step (r.execute levels) c scope s).Traces u o →
    StepTold c scope s u o (Trace.events u)

/-- A step that starts encloses what is told inside it. -/
theorem encloses_of_told {inner : List Told} {workflow name workflow' : String} {type : StepType}
    {result : StepResult}
    (h : (t.inside site).events = ⟨[], .stepStarted workflow name type⟩ ::
      (inner ++ [⟨[], .stepCompleted workflow' result⟩]))
    (hinner : ∀ e ∈ inner, e.Inner) : Encloses site t.events := by
  rw [Trace.events_inside, List.filterMap_eq_cons_iff] at h
  obtain ⟨before, started, tail, htold, hbefore, hstarted, htail⟩ := h
  obtain ⟨inner', last, rfl, hinner', hlast⟩ := List.filterMap_eq_append_iff.1 htail
  obtain ⟨between, ended, after, rfl, hbetween, hended, hafter⟩ := List.filterMap_eq_cons_iff.1 hlast
  obtain rfl := Told.outOf?_eq_some.1 hstarted
  obtain rfl := Told.outOf?_eq_some.1 hended
  have hnone : ∀ e : Told, Told.outOf? site e = none → ¬ site <+: e.site :=
    fun _ => Told.outOf?_eq_none.1
  refine @Encloses.intro site _ before (inner' ++ between) after workflow name workflow' type result
    ?_ (fun e he => hnone e (hbefore e he)) ?_
    (fun e he => hnone e (List.filterMap_eq_nil_iff.1 hafter e he))
  · rw [htold, List.append_assoc, List.append_nil]
  · intro e he hsite
    obtain he | he := List.mem_append.1 he
    · refine hinner ⟨[], e.event⟩ ?_ rfl
      rw [← hinner']
      exact List.mem_filterMap.2 ⟨e, he, Told.outOf?_eq_some.2 (by rw [List.append_nil, ← hsite])⟩
    · exact hnone e (hbetween e he) (hsite ▸ List.prefix_rfl)

section Saved

variable {workflow id step checkpoint : String} {told : List Told}

theorem StepsTold.saved {index : Nat} (h : StepsTold w scope index told)
    (hm : ⟨[], .checkpointSaved workflow id step checkpoint⟩ ∈ told) : scope.persist = true := by
  induction h with
  | none => contradiction
  | step _ hinner hsaved _ ih =>
    simp only [List.mem_append, List.mem_cons] at hm
    obtain hm | hm | hm | hm := hm
    · have := hinner _ hm
      contradiction
    · injection hm
      contradiction
    · cases hsaved with
      | none => contradiction
      | saved id _ hpersist => exact hpersist
    · exact ih hm

theorem RollbacksTold.not_saved (h : RollbacksTold workflow told) {workflow' : String} :
    ⟨[], .checkpointSaved workflow' id step checkpoint⟩ ∉ told := by
  induction h with
  | none => exact List.not_mem_nil
  | pair _ ih => simpa using ih

/-- **Only a run that saves checkpoints** tells itself of one. -/
theorem PartTold.saved {role : Role} (h : r.PartTold w scope role t)
    (hm : ⟨[], .checkpointSaved workflow id step checkpoint⟩ ∈ t.events) :
    role = .run ∧ scope.persist = true := by
  cases h with
  | run _ h =>
    refine ⟨rfl, ?_⟩
    generalize t.events = told at h hm
    obtain ⟨hway, hrollbacks⟩ := h
    simp only [List.mem_cons, List.mem_append, List.not_mem_nil, or_false] at hm
    obtain hm | hm | hm | hm := hm
    · injection hm
      contradiction
    · exact hway.saved hm
    · exact absurd hm hrollbacks.not_saved
    · injection hm
      contradiction
  | @step _ c s _ o _ _ h =>
    generalize t.events = told at h hm
    cases h with
    | skipped => simp [stepEnd] at hm
    | cancelled => simp [stepEnd] at hm
    | started _ hinner =>
      simp only [List.mem_cons, List.mem_append, List.not_mem_nil, or_false, stepEnd] at hm
      obtain hm | hm | hm := hm
      · injection hm
        contradiction
      · exact absurd rfl (hinner _ hm)
      · injection hm
        contradiction
  | attempt h => exact absurd rfl (h _ hm)

end Saved

/-- A site that ends in a run is in the layer of a run. -/
theorem mem_of_roleAt {l : Layer} (h : roleAt (l :: site) = .run) : .run ∈ l :: site := by
  rw [roleAt, List.getLast?_eq_getLast_of_ne_nil (List.cons_ne_nil _ _)] at h
  have hlast : (l :: site).getLast (List.cons_ne_nil _ _) = .run := by
    generalize (l :: site).getLast (List.cons_ne_nil _ _) = last at h
    cases last <;> first | rfl | contradiction
  exact hlast ▸ List.getLast_mem _

/-- **The trace of every run is well formed.** A run tells that it starts before all else and that it
has ended, with the flags of its result, after all else. Each step in it tells once that it has ended,
with its result, and before that once that it starts, unless its condition did not hold or it was
cancelled before. All that is told inside a step, by steps and runs further in, is told between the two.
That a checkpoint was saved is told by no run inside a step, and for a step that is to have one, right
after its end. The compensations of a run start and end one after the other when its steps have ended. -/
theorem ran_told {recorded : List StepResult} (hr : r.Ran w recorded h x) :
    ∃ scope, r.WellTold w scope recorded.length x (exchanges h) := by
  obtain ⟨levels, given, scope, pre, k, rfl, hpre, u⟩ := hr.executes
  have hpart : r.Part w scope .run (exchanges k) := .run u.traces
  -- what is asked before the run tells nothing, and at no layer
  have htold : Trace.events (exchanges (pre ++ k)) = Trace.events (exchanges k) := by
    cases hpre <;> rfl
  have hinside : ∀ l site, Trace.inside (exchanges (pre ++ k)) (l :: site) =
      Trace.inside (exchanges k) (l :: site) := by
    intro l site
    cases hpre <;> rfl
  have hparts : ∀ l site, Trace.inside (exchanges k) (l :: site) ≠ [] → ∃ w' scope',
      r.Enters w scope (l :: site) w' scope' ∧
        r.PartTold w' scope' (roleAt (l :: site)) (Trace.inside (exchanges k) (l :: site)) := by
    intro l site hne
    obtain ⟨w', scope', henters, hpart'⟩ := hpart.inside_run hne
    exact ⟨w', scope', henters, hpart'.told hne⟩
  refine ⟨scope, ?_, ?_, ?_, ?_, fun _ _ _ _ _ _ hs => step_told hs⟩
  · rw [htold]
    exact executeFrom_told u.traces
  · intro l site hne
    rw [hinside] at hne ⊢
    exact hparts l site hne
  · rw [htold]
    intro e he site hrole hprefix hne
    cases site with
    | nil => contradiction
    | cons l site =>
      obtain ⟨w', scope', -, hpart'⟩ := hparts l site (Trace.inside_ne_nil he hprefix)
      obtain ⟨rest, hrest⟩ := hprefix
      have hmem : (⟨rest, e.event⟩ : Told) ∈ (Trace.inside (exchanges k) (l :: site)).events :=
        Trace.mem_events_inside.2 (by rwa [hrest])
      have hrest : rest ≠ [] := by
        rintro rfl
        exact hne (by rw [← hrest, List.append_nil])
      rw [hrole] at hpart'
      cases hpart' with
      | step _ _ hstep =>
        generalize heq : Trace.events (Trace.inside (exchanges k) (l :: site)) = told at hstep hmem
        cases hstep with
        | skipped => simp [stepEnd, hrest] at hmem
        | cancelled => simp [stepEnd, hrest] at hmem
        | started _ hinner => exact encloses_of_told heq hinner
  · rw [htold]
    intro workflow id step checkpoint site he
    cases site with
    | nil => rfl
    | cons l site =>
      obtain ⟨w', scope', henters, hpart'⟩ :=
        hparts l site (Trace.inside_ne_nil he List.prefix_rfl)
      have hmem : (⟨[], .checkpointSaved workflow id step checkpoint⟩ : Told) ∈
          (Trace.inside (exchanges k) (l :: site)).events :=
        Trace.mem_events_inside.2 (by rwa [List.append_nil])
      obtain ⟨hrole, hpersist⟩ := hpart'.saved hmem
      rw [henters.persist (.inr (mem_of_roleAt hrole))] at hpersist
      contradiction

/-- A run with a run inside it and two compensations; the last it tells is that it has failed. -/
theorem ran_told_failing : ∃ (h : History (Inquiry String) Inquiry.Answer) (x : Execution)
    (scope : Scope), Ran { registry := Sample.registry } Sample.failing [] h x ∧
      WellTold { registry := Sample.registry } Sample.failing scope 0 x (exchanges h) ∧
      (Trace.events (exchanges h)).length = 16 ∧ (Trace.events (exchanges h)).getLast? =
        some ⟨[], .workflowCompleted "main" "1" false false 0⟩ := by
  have hu := follow_unfolds Sample.answers 0
    (run { registry := Sample.registry } Sample.failing "1" [])
  have hr : Ran { registry := Sample.registry } Sample.failing [] _ _ := .run (x := _) hu
  obtain ⟨scope, hwell⟩ := ran_told hr
  exact ⟨_, _, scope, hr, hwell, rfl, rfl⟩

end Runner

end Stepflow
