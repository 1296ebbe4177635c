import Mathlib.Tactic.TFAE
import Stepflow.Proofs.Checkpoint.Trace
import Stepflow.Proofs.Endings

/-!
# A refused run leaves no trace

Everything that a run can be refused for is looked at before it begins: the inputs, the checkpoint that
it is resumed from, the steps declared and those recorded. So a run that is refused has done nothing but
read the newest checkpoint, and one that begins comes to a result, whatever fails in it
(`refused_leaves_no_trace`). A dry run refuses what a run refuses.
-/

namespace Stepflow

open Script

variable {κ : Type} {r : Runner κ} {w : Workflow} {id : String} {inputs given : Fields} {scope : Scope}
  {execute : Execute κ} {recorded : List StepResult} {h : History (Inquiry κ) Inquiry.Answer}
  {e : Refusal} {x : Execution}

/-- **The trace cannot be noticed** from outside. -/
structure Trace.Unnoticed (t : Trace κ) : Prop where
  /-- No event is told. -/
  events : ∀ e ∈ t, ∀ event, e.request.request ≠ .tell event
  /-- No component is called. -/
  calls : ∀ e ∈ t, ∀ space name component input, e.request.request ≠ .begin space name component input
  /-- Every store holds what it held before. -/
  store : ∀ {σ : Type} (S : CheckpointStore σ) (a : σ), S.after a t = a

namespace Trace.Unnoticed

theorem nil : Unnoticed ([] : Trace κ) where
  events _ he := absurd he List.not_mem_nil
  calls _ he := absurd he List.not_mem_nil
  store _ _ := rfl

/-- Reading the newest checkpoint changes nothing. -/
theorem latest (answer : Except CheckpointError (Option Checkpoint)) :
    Unnoticed ([.of (.latest id) answer] : Trace κ) where
  events e he event := by
    obtain rfl := List.mem_singleton.1 he
    nofun
  calls e he space name component input := by
    obtain rfl := List.mem_singleton.1 he
    nofun
  store _ _ := rfl

end Trace.Unnoticed

/-- The trace tells at no layer that the workflow starts. -/
def Trace.Starts (w : Workflow) (t : Trace κ) : Prop :=
  ∃ id total replayed, Entry.of (.tell (.workflowStarted w.name id total replayed)) () ∈ t

theorem Trace.Unnoticed.not_starts {t : Trace κ} (ht : t.Unnoticed) : ¬ t.Starts w := by
  rintro ⟨id, total, replayed, hm⟩
  exact ht.events _ hm _ rfl

namespace Runner

/-- A run that takes its course tells that it starts. -/
theorem Course.starts (hc : Course r execute w inputs scope recorded h x) :
    Trace.Starts w (exchanges h) := by
  obtain ⟨-, -, -, -⟩ := hc
  refine ⟨scope.runId, w.steps.length, recorded.length, ?_⟩
  rw [exchanges_append]
  exact List.mem_append_left _ (List.mem_cons_of_mem _ List.mem_cons_self)

/-- **A run that is refused has done nothing.** -/
theorem run_error (u : (r.run w id inputs).Unfolds h (.error e)) :
    r.run w id inputs = .done (.error e) := by
  unfold Runner.run at u ⊢
  split at u
  · rw [(unfolds_done.1 u).2]
  · exact executeFrom_error u

/-- **A run that is not resumed has at most read** the newest checkpoint. -/
theorem resume_error (u : (r.resume w id inputs).Unfolds h (.error e)) :
    h = [] ∨ ∃ answer, exchanges h = [Entry.of (.latest id) answer] := by
  obtain ⟨-, rfl | ⟨answer, rfl⟩⟩ | ⟨given, c, k, rfl, u₁⟩ := resume_unfolds u
  · exact .inl rfl
  · exact .inr ⟨answer, rfl⟩
  · rw [executeFrom_error u₁] at u₁
    obtain ⟨rfl, -⟩ := unfolds_done.1 u₁
    exact .inr ⟨_, rfl⟩

theorem resume_starts (u : (r.resume w id inputs).Unfolds h (.ok x)) : Trace.Starts w (exchanges h) := by
  obtain ⟨⟨e, he⟩, -⟩ | ⟨given, c, k, rfl, u₁⟩ := resume_unfolds u
  · contradiction
  · obtain ⟨id', total, replayed, hm⟩ := (executeFrom_course u₁).starts
    exact ⟨id', total, replayed, List.mem_cons_of_mem _ hm⟩

/-- **A dry run refuses what a run refuses**, with the same refusal. -/
theorem dryRun_error_iff : dryRun w inputs = .error e ↔ r.run w id inputs = .done (.error e) := by
  have hdone : ∀ refusal : Refusal, (Except.error refusal : Except Refusal RunResult) = .error e ↔
      (Script.done (.error refusal) : RunScript κ (Except Refusal Execution)) = .done (.error e) :=
    fun refusal => by simp only [Except.error.injEq, Script.done.injEq]
  unfold dryRun Runner.run
  split
  · exact hdone _
  · rw [executeFrom_eq]
    split
    · exact hdone _
    · rw [Place.replay]
      -- neither is refused: the one has a result, the other a first request
      refine iff_of_false ?_ ?_ <;> rintro ⟨⟩

/-- **A refused run leaves no trace.** A run or a resumed run that is refused has told no event, called
no component, and left every store as it was, whatever the newest checkpoint holds. It starts exactly if
it comes to a result. And it is the same for a run to come to a refusal, for a dry run to give it, and
for the run to be nothing but this refusal. -/
theorem refused_leaves_no_trace (r : Runner κ) (w : Workflow) (id : String) (inputs : Fields) :
    (∀ h y, (r.run w id inputs).Unfolds h y ∨ (r.resume w id inputs).Unfolds h y →
      (∀ e, y = .error e → Trace.Unnoticed (exchanges h)) ∧
        (Trace.Starts w (exchanges h) ↔ ∃ x, y = .ok x)) ∧
      ∀ e, [∃ h, (r.run w id inputs).Unfolds h (.error e), dryRun w inputs = .error e,
        r.run w id inputs = .done (.error e)].TFAE := by
  refine ⟨fun h y hu => ?_, fun e => ?_⟩
  · have hrefused : ∀ e, y = .error e → Trace.Unnoticed (exchanges h) := by
      rintro e rfl
      obtain u | u := hu
      · rw [run_error u] at u
        rw [(unfolds_done.1 u).1]
        exact .nil
      · obtain rfl | ⟨answer, ht⟩ := resume_error u
        · exact .nil
        · rw [ht]
          exact .latest answer
    refine ⟨hrefused, ?_, ?_⟩
    · intro hstarts
      cases y with
      | error e => exact absurd hstarts (hrefused e rfl).not_starts
      | ok x => exact ⟨x, rfl⟩
    · rintro ⟨x, rfl⟩
      obtain u | u := hu
      · obtain ⟨given, -, hc⟩ := run_course u
        exact hc.starts
      · exact resume_starts u
  · tfae_have 1 → 3 := fun ⟨h, u⟩ => run_error u
    tfae_have 3 → 1 := fun hdone => ⟨[], hdone ▸ .done _⟩
    tfae_have 2 ↔ 3 := dryRun_error_iff
    tfae_finish

/-- A run of `failing` starts and comes to its failure; it is not resumed where nothing is saved. -/
theorem refused_leaves_no_trace_failing :
    (∃ h y, (run { registry := Sample.registry } Sample.failing "1" []).Unfolds h y ∧
      Trace.Starts Sample.failing (exchanges h) ∧ ∃ x, y = .ok x) ∧
    ∃ h e, (resume { registry := Sample.registry, hasStore := true } Sample.failing "1" []).Unfolds h
      (.error e) ∧ h ≠ [] ∧ Trace.Unnoticed (exchanges h) := by
  obtain ⟨h, x, hrun, -, -⟩ := Sample.failing_fails
  have hresume := follow_unfolds Sample.answers 0
    (resume { registry := Sample.registry, hasStore := true } Sample.failing "1" [])
  constructor
  · refine ⟨h, _, hrun, ?_, x, rfl⟩
    exact (((refused_leaves_no_trace _ _ _ _).1 _ _ (.inl hrun)).2).2 ⟨x, rfl⟩
  · refine ⟨_, _, hresume, nofun, ?_⟩
    exact ((refused_leaves_no_trace _ _ _ _).1 _ _ (.inr hresume)).1 _ rfl

end Runner

end Stepflow
