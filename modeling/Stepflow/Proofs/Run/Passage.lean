import Stepflow.Proofs.Run.Progress
import Stepflow.Proofs.Run.Recording

/-!
# From the first step to the last

A run takes its steps one after the other, and goes on after a step that was skipped, or that is done
and whose checkpoint is saved. `Passes` says how it came from one place to another in this way, and
`Stops` how it comes to its end from the place that it has reached: all steps are taken, all is
cancelled before a step or in it, a step fails, or its checkpoint cannot be saved. Every history of the
steps is a passage and then a stop (`steps_unfolds`), and every request on the way comes after a passage
and is one of three (`steps_leads`). So what holds of a run is proved of the one step that it goes on
after, and of the five ways to stop: among other things that the steps lie along the way
(`steps_along`).
-/

namespace Stepflow

open Script

variable {κ : Type} {r : Runner κ} {s : Step} {ss rest left : List Step} {p p' q : Place}
  {h k : History (Inquiry κ) Inquiry.Answer} {o : StepOutcome} {ending : Ending}

/-- A run goes on after a step that is done. -/
theorem StepResult.success_of_isDone {result : StepResult} (h : result.status.isDone) :
    result.success := by
  rw [StepResult.success]
  cases hs : result.status <;> rw [hs] at h <;> first | rfl | contradiction

/-- Every step that was run has a result. -/
theorem Place.length_results_after (p : Place) (o : StepOutcome) :
    (p.after o).results.length = p.results.length + 1 := by
  rw [Place.after, List.length_append, List.length_singleton]

/-- After the first of the steps that have no result yet, the others have none. -/
theorem Place.drop_results_after {all : List Step} (hss : all.drop p.results.length = s :: rest) :
    all.drop (p.after o).results.length = rest := by
  rw [length_results_after, ← List.drop_drop, hss]
  rfl

/-- The first of these has the number of the results. -/
theorem Place.getElem?_results {all : List Step} (hss : all.drop p.results.length = s :: rest) :
    all[p.results.length]? = some s := by
  rw [← List.head?_drop, hss]
  rfl

namespace Runner

/-! ## One step -/

section

variable (run : Context → Step → RunScript κ StepOutcome)
  (save : Step → List StepResult → RunScript κ (Except CheckpointError Unit))

/-- The answer whether all is cancelled, at no layer. -/
def pollTurn (cancelled : Bool) : Turn (Inquiry κ) Inquiry.Answer :=
  .asked ⟨{ request := .isCancelled }, cancelled⟩

/-- **A run takes a step** at a place: nothing is cancelled, and the step comes to the outcome. -/
inductive Takes (s : Step) (p : Place) : History (Inquiry κ) Inquiry.Answer → StepOutcome → Prop
  /-- The poll comes first, and then what the step does in its layer. -/
  | intro {h : History (Inquiry κ) Inquiry.Answer} {o : StepOutcome} :
      ((run p.context s).under (.declared p.results.length)).Unfolds h o →
        Takes s p (pollTurn false :: h) o

/-- **A run goes on after a step**: the step was skipped, or it is done and its checkpoint saved. -/
inductive Goes (s : Step) (p : Place) : History (Inquiry κ) Inquiry.Answer → StepOutcome → Prop
  /-- A step that was skipped leaves nothing to save. -/
  | skipped {h : History (Inquiry κ) Inquiry.Answer} {o : StepOutcome} :
      Takes run s p h o → o.result.status = .skipped → Goes s p h o
  /-- What there is to save after a step that is done is saved. -/
  | saved {h k : History (Inquiry κ) Inquiry.Answer} {o : StepOutcome} :
      Takes run s p h o → o.result.status.isDone →
        (save s (p.after o).results).Unfolds k (.ok ()) → Goes s p (h ++ k) o

/-- **The run comes from one place to another**: from before the steps `ss` to before what is left of
them. -/
inductive Passes : List Step → Place → History (Inquiry κ) Inquiry.Answer → List Step → Place → Prop
  /-- It stays where it is. -/
  | here (ss : List Step) (p : Place) : Passes ss p [] ss p
  /-- It goes on after the first step, and passes from there. -/
  | step {s : Step} {rest ss' : List Step} {p p' : Place} {o : StepOutcome}
      {h k : History (Inquiry κ) Inquiry.Answer} :
      Goes run save s p h o → Passes rest (p.after o) k ss' p' → Passes (s :: rest) p (h ++ k) ss' p'

/-- The error of a run that a step made fail. -/
def stepError (s : Step) (o : StepOutcome) : String :=
  "step '" ++ s.name ++ "' failed: " ++ o.result.error.getD ""

/-- The error of a run whose checkpoint after a step could not be saved. -/
def saveError (s : Step) (e : CheckpointError) : String :=
  "checkpoint after step '" ++ s.name ++ "' failed: " ++ e.message

/-- **The steps come to their end** where they are, with the first of them or before it. -/
inductive Stops : List Step → Place → History (Inquiry κ) Inquiry.Answer → Place → Ending → Prop
  /-- No step is left. -/
  | finished (p : Place) : Stops [] p [] p .finished
  /-- All is cancelled before the first step is taken. -/
  | cancelledBefore (s : Step) (rest : List Step) (p : Place) :
      Stops (s :: rest) p [pollTurn true] p .cancelled
  /-- The first step is cancelled. -/
  | cancelled {s : Step} {p : Place} {h : History (Inquiry κ) Inquiry.Answer} {o : StepOutcome}
      (rest : List Step) : Takes run s p h o → o.result.status = .cancelled →
        Stops (s :: rest) p h (p.after o) .cancelled
  /-- The first step fails. -/
  | failed {s : Step} {p : Place} {h : History (Inquiry κ) Inquiry.Answer} {o : StepOutcome}
      (rest : List Step) : Takes run s p h o → o.result.status = .failed →
        Stops (s :: rest) p h (p.after o) (.failed (stepError s o))
  /-- The checkpoint after the first step cannot be saved. -/
  | unsaved {s : Step} {p : Place} {h k : History (Inquiry κ) Inquiry.Answer} {o : StepOutcome}
      {e : CheckpointError} (rest : List Step) : Takes run s p h o → o.result.status.isDone →
        (save s (p.after o).results).Unfolds k (.error e) →
        Stops (s :: rest) p (h ++ k) (p.after o) (.failed (saveError s e))

end

variable {run : Context → Step → RunScript κ StepOutcome}
  {save : Step → List StepResult → RunScript κ (Except CheckpointError Unit)}

/-- **What a run exchanges to take a step**: the answer that nothing is cancelled, and then what the
step does, in the layer of its number. -/
theorem Takes.traces (ht : Takes run s p h o) : ∃ t : Trace κ, (run p.context s).Traces t o ∧
    exchanges h = Entry.of .isCancelled false :: t.into (.declared p.results.length) := by
  obtain ⟨u⟩ := ht
  obtain ⟨t, ht, heq⟩ := RunScript.traces_under.1 u.traces
  refine ⟨t, ht, ?_⟩
  rw [pollTurn, exchanges_asked, heq]
  rfl

theorem Takes.name (ht : Takes run s p h o) (hk : ∀ c, s.Keeps r (run c s)) :
    o.result.name = s.name := by
  obtain ⟨t, hstep, -⟩ := ht.traces
  exact (hk p.context t o hstep).1

theorem unfolds_isCancelled {cancelled : Bool} :
    (RunScript.isCancelled : RunScript κ Bool).Unfolds h cancelled ↔ h = [pollTurn cancelled] := by
  constructor
  · intro u
    cases u with
    | ask x u =>
      obtain ⟨rfl, rfl⟩ := unfolds_done.1 u
      rfl
  · rintro rfl
    exact unfolds_ask.2 ⟨cancelled, [], .done _, rfl⟩

/-- **A component that is called** begins, gives way, and ends with the reply that is collected. -/
theorem call_unfolds_iff {space : Namespace} {component : κ} {input : Input}
    {reply : Except String Reply} : (RunScript.call space name component input).Unfolds h reply ↔
      ∃ x : Call, h = [.asked ⟨{ request := .begin space name component input }, x⟩,
        .asked ⟨{ request := .collect x.ticket }, reply⟩] := by
  constructor
  · intro u
    obtain ⟨x, k, u₁, rfl⟩ := unfolds_ask.1 u
    obtain ⟨h₁, h₂, _, u₂, u₃, rfl⟩ := unfolds_andThen.1 u₁
    obtain ⟨rfl, heq⟩ := unfolds_done.1 u₂
    subst heq
    obtain ⟨h₃, h₄, _, u₄, u₅, rfl⟩ := unfolds_andThen.1 u₃
    obtain rfl := unfolds_pauses.1 u₄
    obtain ⟨y, l, u₆, rfl⟩ := unfolds_ask.1 u₅
    obtain ⟨rfl, rfl⟩ := unfolds_done.1 u₆
    exact ⟨_, rfl⟩
  · rintro ⟨x, rfl⟩
    have hcollect : (RunScript.request (.collect x.ticket) : RunScript κ (Except String Reply)).Unfolds
        [.asked ⟨{ request := .collect x.ticket }, reply⟩] reply := .ask _ (.done _)
    refine unfolds_ask.2 ⟨x, _, unfolds_andThen.2 ⟨[], _, x, .done x, ?_, rfl⟩, rfl⟩
    exact unfolds_andThen.2 ⟨[], _, (), unfolds_pauses.2 rfl, hcollect, rfl⟩

/-- What a run does once it is answered whether the checkpoint after a step was saved. -/
def afterSaving (run : Context → Step → RunScript κ StepOutcome)
    (save : Step → List StepResult → RunScript κ (Except CheckpointError Unit)) (s : Step)
    (rest : List Step) (p : Place) : Except CheckpointError Unit → RunScript κ (Place × Ending)
  | .ok () => steps run save rest p
  | .error e => .done (p, .failed (saveError s e))

/-- What a run does after the outcome of a step. -/
def proceed (run : Context → Step → RunScript κ StepOutcome)
    (save : Step → List StepResult → RunScript κ (Except CheckpointError Unit)) (s : Step)
    (rest : List Step) (p : Place) (o : StepOutcome) : RunScript κ (Place × Ending) :=
  match o.result.status with
  | .cancelled => .done (p.after o, .cancelled)
  | .failed => .done (p.after o, .failed (stepError s o))
  | .skipped => steps run save rest (p.after o)
  | .passed | .fixed =>
    (save s (p.after o).results).andThen (afterSaving run save s rest (p.after o))

/-- What a run does first is to ask whether all is cancelled. -/
theorem steps_cons (s : Step) (rest : List Step) (p : Place) : steps run save (s :: rest) p =
    RunScript.isCancelled.andThen fun cancelled =>
      if cancelled then .done (p, .cancelled)
      else ((run p.context s).under (.declared p.results.length)).andThen
        (proceed run save s rest p) := rfl

/-- **The first step** is not taken if all is cancelled, and else followed by what its outcome says. -/
theorem steps_cons_unfolds : (steps run save (s :: rest) p).Unfolds h (q, ending) ↔
    (h = [pollTurn true] ∧ q = p ∧ ending = .cancelled) ∨
      ∃ h₁ h₂ o, Takes run s p h₁ o ∧ (proceed run save s rest p o).Unfolds h₂ (q, ending) ∧
        h = h₁ ++ h₂ := by
  rw [steps_cons, unfolds_andThen]
  constructor
  · rintro ⟨h₁, h₂, cancelled, u₁, u₂, rfl⟩
    obtain rfl := unfolds_isCancelled.1 u₁
    cases cancelled with
    | true =>
      obtain ⟨rfl, hq⟩ := unfolds_done.1 u₂
      exact .inl ⟨rfl, Prod.mk.inj hq⟩
    | false =>
      obtain ⟨h₃, h₄, o, u₃, u₄, rfl⟩ := unfolds_andThen.1 u₂
      exact .inr ⟨_, h₄, o, ⟨u₃⟩, u₄, rfl⟩
  · rintro (⟨rfl, rfl, rfl⟩ | ⟨h₁, h₂, o, ⟨u₁⟩, u₂, rfl⟩)
    · exact ⟨_, [], true, unfolds_isCancelled.2 rfl, .done _, rfl⟩
    · exact ⟨[_], _, false, unfolds_isCancelled.2 rfl, unfolds_andThen.2 ⟨_, _, o, u₁, u₂, rfl⟩, rfl⟩

/-- **After the step** the run goes on, or stops. -/
theorem proceed_unfolds (ht : Takes run s p h o)
    (u : (proceed run save s rest p o).Unfolds k (q, ending)) :
    Stops run save (s :: rest) p (h ++ k) q ending ∨
      ∃ h₁ h₂, Goes run save s p (h ++ h₁) o ∧ (steps run save rest (p.after o)).Unfolds h₂ (q, ending) ∧
        k = h₁ ++ h₂ := by
  have hsave : o.result.status.isDone → ((save s (p.after o).results).andThen
      (afterSaving run save s rest (p.after o))).Unfolds k (q, ending) →
      Stops run save (s :: rest) p (h ++ k) q ending ∨
        ∃ h₁ h₂, Goes run save s p (h ++ h₁) o ∧
          (steps run save rest (p.after o)).Unfolds h₂ (q, ending) ∧ k = h₁ ++ h₂ := by
    intro hdone u
    obtain ⟨h₁, h₂, saved, u₁, u₂, rfl⟩ := unfolds_andThen.1 u
    rcases saved with e | _
    · obtain ⟨rfl, hq⟩ := unfolds_done.1 u₂
      obtain ⟨rfl, rfl⟩ := Prod.mk.inj hq
      rw [List.append_nil]
      exact .inl (.unsaved rest ht hdone u₁)
    · exact .inr ⟨h₁, h₂, .saved ht hdone u₁, u₂, rfl⟩
  unfold proceed at u
  split at u
  · rename_i hs
    obtain ⟨rfl, hq⟩ := unfolds_done.1 u
    obtain ⟨rfl, rfl⟩ := Prod.mk.inj hq
    rw [List.append_nil]
    exact .inl (.cancelled rest ht hs)
  · rename_i hs
    obtain ⟨rfl, hq⟩ := unfolds_done.1 u
    obtain ⟨rfl, rfl⟩ := Prod.mk.inj hq
    rw [List.append_nil]
    exact .inl (.failed rest ht hs)
  · rename_i hs
    exact .inr ⟨[], k, by rw [List.append_nil]; exact .skipped ht hs, u, rfl⟩
  · rename_i hs
    exact hsave (by rw [hs]; rfl) u
  · rename_i hs
    exact hsave (by rw [hs]; rfl) u

theorem proceed_of_isDone (hs : o.result.status.isDone) : proceed run save s rest p o =
    (save s (p.after o).results).andThen (afterSaving run save s rest (p.after o)) := by
  unfold proceed
  cases hstatus : o.result.status <;> rw [hstatus] at hs <;> contradiction

/-- And a run that goes on after the first step has the histories of the rest. -/
theorem Goes.unfolds (hgo : Goes run save s p h o)
    (u : (steps run save rest (p.after o)).Unfolds k (q, ending)) :
    (steps run save (s :: rest) p).Unfolds (h ++ k) (q, ending) := by
  cases hgo with
  | skipped ht hs =>
    refine steps_cons_unfolds.2 (.inr ⟨h, k, o, ht, ?_, rfl⟩)
    unfold proceed
    rw [hs]
    exact u
  | @saved h₁ h₂ _ ht hs hsave =>
    refine steps_cons_unfolds.2 (.inr ⟨h₁, h₂ ++ k, o, ht, ?_, List.append_assoc _ _ _⟩)
    rw [proceed_of_isDone hs]
    exact unfolds_andThen.2 ⟨h₂, k, _, hsave, u, rfl⟩

theorem Stops.unfolds (hs : Stops run save ss p h q ending) :
    (steps run save ss p).Unfolds h (q, ending) := by
  cases hs with
  | finished => exact .done _
  | cancelledBefore s rest => exact steps_cons_unfolds.2 (.inl ⟨rfl, rfl, rfl⟩)
  | cancelled rest ht hs =>
    refine steps_cons_unfolds.2 (.inr ⟨h, [], _, ht, ?_, (List.append_nil _).symm⟩)
    unfold proceed
    rw [hs]
    exact .done _
  | failed rest ht hs =>
    refine steps_cons_unfolds.2 (.inr ⟨h, [], _, ht, ?_, (List.append_nil _).symm⟩)
    unfold proceed
    rw [hs]
    exact .done _
  | unsaved rest ht hs hsave =>
    refine steps_cons_unfolds.2 (.inr ⟨_, _, _, ht, ?_, rfl⟩)
    rw [proceed_of_isDone hs]
    exact unfolds_andThen.2 ⟨_, [], _, hsave, .done _, (List.append_nil _).symm⟩

/-! ## All steps -/

/-- **Every history of the steps** is a passage to some place and then a stop there. -/
theorem steps_unfolds : (steps run save ss p).Unfolds h (q, ending) ↔
    ∃ h₁ h₂ ss' p', Passes run save ss p h₁ ss' p' ∧ Stops run save ss' p' h₂ q ending ∧
      h = h₁ ++ h₂ := by
  constructor
  · intro u
    induction ss generalizing p h with
    | nil =>
      obtain ⟨rfl, hq⟩ := unfolds_done.1 u
      obtain ⟨rfl, rfl⟩ := Prod.mk.inj hq
      exact ⟨[], [], [], q, .here _ _, .finished _, rfl⟩
    | cons s rest ih =>
      have hstop : ∀ {h}, Stops run save (s :: rest) p h q ending →
          ∃ h₁ h₂ ss' p', Passes run save (s :: rest) p h₁ ss' p' ∧
            Stops run save ss' p' h₂ q ending ∧ h = h₁ ++ h₂ :=
        fun hs => ⟨[], _, _, _, .here _ _, hs, rfl⟩
      obtain ⟨rfl, rfl, rfl⟩ | ⟨h₁, h₂, o, ht, u₁, rfl⟩ := steps_cons_unfolds.1 u
      · exact hstop (.cancelledBefore s rest q)
      · obtain hs | ⟨h₃, h₄, hgo, u₂, rfl⟩ := proceed_unfolds ht u₁
        · exact hstop hs
        · obtain ⟨h₅, h₆, ss', p', hp, hs, rfl⟩ := ih u₂
          refine ⟨_, h₆, ss', p', .step hgo hp, hs, ?_⟩
          simp only [List.append_assoc]
  · rintro ⟨h₁, h₂, ss', p', hp, hs, rfl⟩
    induction hp with
    | here => exact hs.unfolds
    | step hgo _ ih =>
      rw [List.append_assoc]
      exact hgo.unfolds (ih hs)

/-- **How far a run has come**: behind it are the steps before those left, each with a result that the
run goes on after. -/
theorem Passes.behind (hk : ∀ s ∈ ss, ∀ c, s.Keeps r (run c s)) {left : List Step}
    (hp : Passes run save ss p h left p') : ∃ before new, ss = before ++ left ∧
      p'.results = p.results ++ new ∧ new.map StepResult.name = before.map Step.name ∧
        ∀ result ∈ new, result.success := by
  induction hp with
  | here => exact ⟨[], [], rfl, (List.append_nil _).symm, rfl, nofun⟩
  | @step s rest left p p' o h k hgo _ ih =>
    obtain ⟨before, new, rfl, hresults, hnames, hsuccess⟩ :=
      ih fun i hi => hk i (List.mem_cons_of_mem _ hi)
    have hfirst : o.result.name = s.name ∧ o.result.success := by
      cases hgo with
      | skipped ht hs => exact ⟨ht.name (hk s List.mem_cons_self), by rw [StepResult.success, hs]; rfl⟩
      | saved ht hs _ => exact ⟨ht.name (hk s List.mem_cons_self), StepResult.success_of_isDone hs⟩
    refine ⟨s :: before, o.result :: new, rfl, ?_, ?_, ?_⟩
    · rw [hresults]
      simp [Place.after]
    · rw [List.map_cons, List.map_cons, hfirst.1, hnames]
    · intro result hm
      rcases List.mem_cons.1 hm with rfl | hm
      · exact hfirst.2
      · exact hsuccess result hm

/-- The steps that are left are those that have no result yet. -/
theorem Passes.drop {all : List Step} (hss : all.drop p.results.length = ss)
    (hp : Passes run save ss p h left p') : all.drop p'.results.length = left := by
  induction hp with
  | here => exact hss
  | step _ _ ih => exact ih (Place.drop_results_after hss)

/-- The steps that are left are the last of all. -/
theorem Passes.suffix (hp : Passes run save ss p h left p') : left <:+ ss := by
  induction hp with
  | here => exact List.suffix_rfl
  | step _ _ ih => exact ih.trans (List.suffix_cons _ _)

/-! ## What is asked on the way -/

section

variable (run : Context → Step → RunScript κ StepOutcome)
  (save : Step → List StepResult → RunScript κ (Except CheckpointError Unit))

/-- **A request of a run that stands before a step**, with what it does once it is answered. -/
inductive Asks (s : Step) (rest : List Step) (p : Place) : History (Inquiry κ) Inquiry.Answer →
    (a : Inquiry κ) → (a.Answer → RunScript κ (Place × Ending)) → Prop
  /-- It asks whether all is cancelled. -/
  | poll : Asks s rest p [] { request := .isCancelled } fun cancelled =>
      if cancelled then .done (p, .cancelled)
      else ((run p.context s).under (.declared p.results.length)).andThen (proceed run save s rest p)
  /-- The step asks. -/
  | inside {h : History (Inquiry κ) Inquiry.Answer} {a : Inquiry κ}
      {next : a.Answer → RunScript κ StepOutcome} :
      ((run p.context s).under (.declared p.results.length)).Leads h (.ask a next) →
        Asks s rest p (pollTurn false :: h) a fun x => (next x).andThen (proceed run save s rest p)
  /-- It asks to save what there is to save after the step. -/
  | saving {h k : History (Inquiry κ) Inquiry.Answer} {o : StepOutcome} {a : Inquiry κ}
      {next : a.Answer → RunScript κ (Except CheckpointError Unit)} :
      Takes run s p h o → o.result.status.isDone →
        (save s (p.after o).results).Leads k (.ask a next) →
        Asks s rest p (h ++ k) a fun x => (next x).andThen (afterSaving run save s rest (p.after o))

end

variable {a : Inquiry κ} {next : a.Answer → RunScript κ (Place × Ending)}

/-- After the step it is a request to save, or one further on. -/
theorem proceed_leads (ht : Takes run s p h o)
    (l : (proceed run save s rest p o).Leads k (.ask a next)) :
    Asks run save s rest p (h ++ k) a next ∨
      ∃ h₁ h₂, Goes run save s p (h ++ h₁) o ∧
        (steps run save rest (p.after o)).Leads h₂ (.ask a next) ∧ k = h₁ ++ h₂ := by
  have hsave : o.result.status.isDone → ((save s (p.after o).results).andThen
      (afterSaving run save s rest (p.after o))).Leads k (.ask a next) →
      Asks run save s rest p (h ++ k) a next ∨
        ∃ h₁ h₂, Goes run save s p (h ++ h₁) o ∧
          (steps run save rest (p.after o)).Leads h₂ (.ask a next) ∧ k = h₁ ++ h₂ := by
    intro hdone l
    obtain ⟨next₁, l₁, rfl⟩ | ⟨h₁, h₂, saved, u₁, l₁, rfl⟩ := leads_andThen_ask l
    · exact .inl (.saving ht hdone l₁)
    · rcases saved with e | _
      · exact absurd l₁ not_leads_ask
      · exact .inr ⟨h₁, h₂, .saved ht hdone u₁, l₁, rfl⟩
  unfold proceed at l
  split at l
  · exact absurd l not_leads_ask
  · exact absurd l not_leads_ask
  · rename_i hs
    exact .inr ⟨[], k, by rw [List.append_nil]; exact .skipped ht hs, l, rfl⟩
  · rename_i hs
    exact hsave (by rw [hs]; rfl) l
  · rename_i hs
    exact hsave (by rw [hs]; rfl) l

/-- **Every request of the steps** comes after a passage to some place, and is one of a run that stands
there. -/
theorem steps_leads (l : (steps run save ss p).Leads h (.ask a next)) :
    ∃ h₁ h₂ s rest p', Passes run save ss p h₁ (s :: rest) p' ∧
      Asks run save s rest p' h₂ a next ∧ h = h₁ ++ h₂ := by
  induction ss generalizing p h with
  | nil => exact absurd l not_leads_ask
  | cons s rest ih =>
    have hhere : ∀ {h}, Asks run save s rest p h a next →
        ∃ h₁ h₂ s' rest' p', Passes run save (s :: rest) p h₁ (s' :: rest') p' ∧
          Asks run save s' rest' p' h₂ a next ∧ h = h₁ ++ h₂ :=
      fun ha => ⟨[], _, s, rest, p, .here _ _, ha, rfl⟩
    rw [steps_cons] at l
    obtain ⟨next₁, l₁, rfl⟩ | ⟨h₁, h₂, cancelled, u₁, l₁, rfl⟩ := leads_andThen_ask l
    · obtain ⟨rfl, hr⟩ := leads_request_ask l₁
      injection hr with hq hn
      subst hq
      obtain rfl := eq_of_heq hn
      exact hhere .poll
    obtain rfl := unfolds_isCancelled.1 u₁
    cases cancelled with
    | true => exact absurd l₁ not_leads_ask
    | false =>
      obtain ⟨next₂, l₂, rfl⟩ | ⟨h₃, h₄, o, u₂, l₂, rfl⟩ := leads_andThen_ask l₁
      · exact hhere (.inside l₂)
      · obtain ha | ⟨h₅, h₆, hgo, l₃, rfl⟩ := proceed_leads ⟨u₂⟩ l₂
        · exact hhere ha
        · obtain ⟨h₇, h₈, s', rest', p', hpasses, ha, rfl⟩ := ih l₃
          refine ⟨_, h₈, s', rest', p', .step hgo hpasses, ha, ?_⟩
          simp only [List.append_assoc, List.cons_append, List.nil_append]

/-! ## Along the way -/

theorem pollTurn_idle {cancelled : Bool} :
    Trace.Idle (exchanges [(pollTurn cancelled : Turn (Inquiry κ) Inquiry.Answer)]) :=
  .of_asksOnly (asksOnly_request.2 (Inquiry.isIdle_of_site rfl (by rintro _ ⟨⟩)))
    (unfolds_isCancelled.2 rfl).traces

theorem Takes.along (hk : ∀ c, s.Keeps r (run c s)) (ht : Takes run s p h o) (rest : List Step) :
    ∃ cs, Along r (s :: rest) p (exchanges h) (p.after o) [o.result] cs o.effects := by
  obtain ⟨u⟩ := ht
  obtain ⟨cs, hstep⟩ := Along.step (hk p.context) u.traces rest
  exact ⟨cs, hstep.idle_append pollTurn_idle⟩

/-- A step that a run goes on after leaves what its result records, if it records what it leaves. -/
theorem Takes.records (hr : ∀ c, s.Records (run c s)) (ht : Takes run s p h o)
    (hgoes : o.result.success) : o.effects = o.result.recorded s := by
  obtain ⟨t, hstep, -⟩ := ht.traces
  exact (hr p.context t o hstep).2 (.inl hgoes)

section

variable (hk : ∀ s ∈ ss, ∀ c, s.Keeps r (run c s))
  (hs : ∀ s results, (save s results).AsksOnly Inquiry.IsIdle)

include hs

theorem Goes.along (hk : ∀ c, s.Keeps r (run c s)) (hgo : Goes run save s p h o) (rest : List Step) :
    ∃ cs, Along r (s :: rest) p (exchanges h) (p.after o) [o.result] cs o.effects := by
  cases hgo with
  | skipped ht _ => exact ht.along hk rest
  | saved ht _ hsave =>
    obtain ⟨cs, hway⟩ := ht.along hk rest
    rw [exchanges_append]
    exact ⟨cs, hway.append_idle (.of_asksOnly (hs _ _) hsave.traces)⟩

omit hs in
theorem Goes.records (hr : ∀ c, s.Records (run c s)) (hgo : Goes run save s p h o) :
    o.effects = o.result.recorded s := by
  cases hgo with
  | skipped ht hstatus => exact ht.records hr (by rw [StepResult.success, hstatus]; rfl)
  | saved ht hdone _ => exact ht.records hr (StepResult.success_of_isDone hdone)

include hk

/-- **A passage and then the way on.** If the way on leaves what the results record, so does the
whole. -/
theorem Passes.along_append {t : Trace κ} {new : List StepResult} {cs : List Completion} {e : Effects}
    (hp : Passes run save ss p h left p') (ha : Along r left p' t q new cs e) :
    ∃ before passed ds e', ss = before ++ left ∧ passed.length = before.length ∧
      Along r ss p (exchanges h ++ t) q (passed ++ new) ds e' ∧
      ((∀ s ∈ ss, ∀ c, s.Records (run c s)) → e = StepResult.recordedAlong left new →
        e' = StepResult.recordedAlong ss (passed ++ new)) := by
  induction hp with
  | here => exact ⟨[], [], cs, e, rfl, rfl, ha, fun _ he => he⟩
  | @step s rest left p p' o h k hgo _ ih =>
    obtain ⟨before, passed, ds, e', rfl, hlength, hway, hexact⟩ :=
      ih (fun i hi => hk i (List.mem_cons_of_mem _ hi)) ha
    obtain ⟨cs', hstep⟩ := hgo.along hs (hk s List.mem_cons_self) (before ++ left)
    refine ⟨s :: before, o.result :: passed, cs' ++ ds, o.effects ++ e', rfl, ?_, ?_, fun hr he => ?_⟩
    · rw [List.length_cons, List.length_cons, hlength]
    · rw [exchanges_append, List.append_assoc]
      exact hstep.trans hway
    · rw [List.cons_append, StepResult.recordedAlong, hgo.records (hr s List.mem_cons_self),
        hexact (fun i hi => hr i (List.mem_cons_of_mem _ hi)) he]

theorem Stops.along (hstops : Stops run save ss p h q ending) :
    ∃ new cs e, Along r ss p (exchanges h) q new cs e := by
  cases hstops with
  | finished => exact ⟨[], [], .empty, .idle_self ⟨.nil, rfl⟩ [] _⟩
  | cancelledBefore s rest => exact ⟨[], [], .empty, .idle_self pollTurn_idle _ _⟩
  | cancelled rest ht _ =>
    obtain ⟨cs, hway⟩ := ht.along (hk _ List.mem_cons_self) rest
    exact ⟨_, cs, _, hway⟩
  | failed rest ht _ =>
    obtain ⟨cs, hway⟩ := ht.along (hk _ List.mem_cons_self) rest
    exact ⟨_, cs, _, hway⟩
  | unsaved rest ht _ hsave =>
    obtain ⟨cs, hway⟩ := ht.along (hk _ List.mem_cons_self) rest
    rw [exchanges_append]
    exact ⟨_, cs, _, hway.append_idle (.of_asksOnly (hs _ _) hsave.traces)⟩

end

/-- **When the steps have come to their end**, they lie along the way. -/
theorem steps_along {t : Trace κ} (hk : ∀ s ∈ ss, ∀ c, s.Keeps r (run c s))
    (hs : ∀ s results, (save s results).AsksOnly Inquiry.IsIdle)
    (h : (steps run save ss p).Traces t (q, ending)) : ∃ new cs e, Along r ss p t q new cs e := by
  obtain ⟨h, u, rfl⟩ := h
  obtain ⟨h₁, h₂, left, p', hpasses, hstops, rfl⟩ := steps_unfolds.1 u
  obtain ⟨before, new, hss, -⟩ := hpasses.behind hk
  obtain ⟨new, cs, e, hend⟩ := hstops.along
    (fun s hm => hk s (hss ▸ List.mem_append_right before hm)) hs
  obtain ⟨-, passed, ds, e', -, -, hway, -⟩ := hpasses.along_append hk hs hend
  rw [exchanges_append]
  exact ⟨_, ds, e', hway⟩

end Runner

end Stepflow
