import Stepflow.Proofs.Run.Workflow

/-!
# What runs ask

Besides what its steps ask and what it asks to save its checkpoints, a run asks for the time, tells
its events, calls the components that compensate, and removes its checkpoints in the end. So a bound
on all of these bounds what the run asks.
-/

namespace Stepflow

open Script

variable {κ : Type} {r : Runner κ} {w : Workflow} {scope : Scope} {given : Fields} {p : Place}
  {execute : Execute κ} {b : Inquiry κ → Prop}

namespace Runner

section

variable (hcall : ∀ q, q.IsCall → b q) (ht : ∀ e : Event, ¬ e.IsOfStep → b { request := .tell e })

include hcall ht

theorem asksOnly_rollback {workflow : String} {owed : List Compensation} :
    (r.rollback workflow owed).AsksOnly b := by
  induction owed with
  | nil => trivial
  | cons c rest ih =>
    have hcompensate : (r.compensate c).AsksOnly b :=
      ((RunScript.Works.compositional hcall).compensate r c).asks
    exact (asksOnly_request.2 (ht _ (by rintro ⟨⟩))).andThen fun _ => hcompensate.andThen fun _ =>
      (asksOnly_request.2 (ht _ (by rintro ⟨⟩))).andThen fun _ => ih

variable (hc : scope.persist = true → ∀ id, b { request := .clear id })

include hc

theorem asksOnly_conclude (hnow : b { request := .now }) {began : Nat} {ending : Ending} :
    (r.conclude w scope began p ending).AsksOnly b := by
  have hsettle : (r.settle w.name scope p.owed ending).AsksOnly b := by
    cases ending with
    | failed error => exact (asksOnly_rollback hcall ht).andThen fun _ => trivial
    | cancelled => trivial
    | finished =>
      refine AsksOnly.andThen ?_ fun _ => trivial
      unfold clearCheckpoints
      split
      · rename_i hclear
        have hpersist := (Bool.and_eq_true_iff.1 hclear).1
        exact (asksOnly_request.2 (hc hpersist _)).andThen fun _ => trivial
      · trivial
  refine hsettle.andThen fun _ => AsksOnly.andThen ?_ fun _ =>
    (asksOnly_request.2 (ht _ (by rintro ⟨⟩))).andThen fun _ => trivial
  exact (asksOnly_request.2 hnow).andThen fun _ => trivial

end

/-- A run on its way from step to step asks what its steps, each in its place, and checkpoints ask, and
whether all is cancelled. -/
theorem asksOnly_steps {ss : List Step} {run : Context → Step → RunScript κ StepOutcome}
    {save : Step → List StepResult → RunScript κ (Except CheckpointError Unit)}
    (hpoll : b { request := .isCancelled })
    (hrun : ∀ i s, ss[i]? = some s → ∀ c,
      ((run c s).under (.declared (p.results.length + i))).AsksOnly b)
    (hsave : ∀ s results, (save s results).AsksOnly b) : (steps run save ss p).AsksOnly b := by
  induction ss generalizing p with
  | nil => trivial
  | cons s rest ih =>
    have hrest : ∀ o, (steps run save rest (p.after o)).AsksOnly b := fun o => ih fun i s hi c => by
      have hlen : (p.after o).results.length + i = p.results.length + (i + 1) := by
        rw [Place.length_results_after]
        omega
      rw [hlen]
      exact hrun (i + 1) s hi c
    refine (asksOnly_request.2 hpoll).andThen fun cancelled => ?_
    split
    · trivial
    · refine (hrun 0 s rfl p.context).andThen fun o => ?_
      dsimp only
      split
      · trivial
      · trivial
      · exact hrest o
      all_goals
        refine (hsave s _).andThen fun saved => ?_
        split
        · exact hrest o
        · trivial

section

variable (hw : ∀ q, q.IsWork → b q) (ht : ∀ e : Event, ¬ e.IsOfStep → b { request := .tell e })
  (hc : scope.persist = true → ∀ id, b { request := .clear id })

include hw ht hc

/-- So does one that goes on from a place to its end. -/
theorem asksOnly_goOn {began : Nat} {rest : List Step}
    (hrun : ∀ i s, rest[i]? = some s → ∀ c,
      ((r.step execute c scope s).under (.declared (p.results.length + i))).AsksOnly b)
    (hsave : ∀ s results, (saving w scope given s results).AsksOnly b) :
    (r.goOn execute w given scope began rest p).AsksOnly b :=
  (asksOnly_steps (hw _ .isCancelled) hrun hsave).andThen fun _ =>
    (asksOnly_conclude (fun q hq => hw q hq.isWork) ht hc (hw _ .now)).andThen fun _ => trivial

/-- **A run asks** what its steps and checkpoints ask, and what it needs to begin and to end. -/
theorem asksOnly_executeFrom {recorded : List StepResult}
    (hrun : ∀ c, ∀ s ∈ w.steps, ∀ k, ((r.step execute c scope s).under (.declared k)).AsksOnly b)
    (hsave : ∀ s results, (saving w scope given s results).AsksOnly b) :
    (r.executeFrom execute recorded w given scope).AsksOnly b := by
  rw [executeFrom_eq]
  split
  · trivial
  · split
    · trivial
    · exact (asksOnly_request.2 (hw _ .now)).andThen fun _ =>
        (asksOnly_request.2 (ht _ (by rintro ⟨⟩))).andThen fun _ =>
          asksOnly_goOn hw ht hc
            (fun _ s hs c => hrun c s (List.mem_of_mem_drop (List.mem_of_getElem? hs)) _) hsave

end

/-- **What a run asks and its beginning and end do not**, it asks on its way from step to step. -/
theorem run_leads_ask {id : String} {inputs : Fields} {h : History (Inquiry κ) Inquiry.Answer}
    {q : Inquiry κ} {next : q.Answer → RunScript κ (Except Refusal Execution)}
    (hcall : ∀ q, q.IsCall → b q) (ht : ∀ e, b { request := .tell e })
    (hc : ∀ id, b { request := .clear id }) (hnow : b { request := .now }) (hq : ¬ b q)
    (l : (r.run w id inputs).Leads h (.ask q next)) :
    ∃ given began h' next', w.resolveInputs inputs = .ok given ∧ w.steps.isEmpty = false ∧
      h = begun w (.root w.name id r.hasStore) began 0 ++ h' ∧
      (steps (fun c s => r.step (r.execute r.levels) c (.root w.name id r.hasStore) s)
        (saving w (.root w.name id r.hasStore) given) w.steps (r.start given)).Leads h' (.ask q next') ∧
      next = fun x => (next' x).andThen fun (p, ending) =>
        (r.conclude w (.root w.name id r.hasStore) began p ending).andThen fun x => .done (.ok x) := by
  have hother : ∀ {α : Type} {x : RunScript κ α} {h next₁}, x.AsksOnly b → ¬ x.Leads h (.ask q next₁) :=
    fun hx l => hq (hx.of_leads l).1
  unfold Runner.run at l
  split at l
  · exact absurd l not_leads_ask
  rename_i given hgiven
  rw [executeFrom_eq] at l
  split at l
  · exact absurd l not_leads_ask
  rename_i hsteps
  rw [Place.replay] at l
  obtain ⟨_, l₁, -⟩ | ⟨h₁, h₂, began, u₁, l₁, rfl⟩ := leads_andThen_ask l
  · exact absurd l₁ (hother (asksOnly_request.2 hnow))
  obtain ⟨_, l₂, -⟩ | ⟨h₃, h₄, _, u₂, l₂, rfl⟩ := leads_andThen_ask l₁
  · exact absurd l₂ (hother (asksOnly_request.2 (ht _)))
  obtain ⟨next₁, l₃, rfl⟩ | ⟨h₅, h₆, ⟨p, ending⟩, u₃, l₃, rfl⟩ := leads_andThen_ask l₂
  · rw [List.length_nil, List.drop_zero] at l₃
    refine ⟨given, began, h₄, next₁, hgiven, Bool.eq_false_iff.2 hsteps, ?_, l₃, rfl⟩
    obtain ⟨x, k, u, rfl⟩ := unfolds_ask.1 u₁
    obtain ⟨rfl, rfl⟩ := unfolds_done.1 u
    obtain ⟨y, k, u, rfl⟩ := unfolds_ask.1 u₂
    obtain ⟨rfl, -⟩ := unfolds_done.1 u
    rfl
  · have hend : (r.conclude w (.root w.name id r.hasStore) began p ending).AsksOnly b :=
      asksOnly_conclude hcall (fun e _ => ht e) (fun _ => hc) hnow
    exact absurd l₃ (hother (hend.andThen fun _ => trivial))

end Runner

end Stepflow
