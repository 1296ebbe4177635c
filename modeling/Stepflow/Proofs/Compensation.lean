import Stepflow.Proofs.Run.Workflow
import Stepflow.Step.Builder

/-!
# Exactly-once compensation

Whatever a run does, and whenever it is cancelled, every step that completed and carries a compensation
is compensated exactly once if a run around it failed, and not at all if none did.

The proof is the ledger that every script of a run keeps (`Ledger`): a completion is entered once, at
its own site, and it leaves the ledger of a run that fails and no other.
-/

namespace Stepflow

open Script

variable {κ : Type}

namespace Request

/-- The answers of steady surroundings: nothing is cancelled, no time passes, and the reply of a
component is found by the ticket of its call. -/
def steadily (ticket : String → Nat) (reply : Nat → Except String Reply) :
    (q : Request κ) → q.Answer
  | .tell _ => ()
  | .isCancelled => false
  | .now => 0
  | .today => ⟨0, 0⟩
  | .jitter => 0
  | .freshId => "1"
  | .begin _ name _ _ => ⟨ticket name, 0⟩
  | .collect ticket => reply ticket
  | .defer _ => ()
  | .save _ _ => .ok ()
  | .latest _ => .ok none
  | .clear _ => .ok ()

end Request

namespace Runner

/-- A run that was not refused keeps account. -/
theorem run_traces {r : Runner κ} {w : Workflow} {id : String} {inputs : Fields} {t : Trace κ}
    {x : Execution} (h : (r.run w id inputs).Traces t (.ok x)) :
    ∃ cs, Ledger r t cs x.compensations := by
  unfold run at h
  split at h
  · exact absurd (traces_done.1 h).2 nofun
  · obtain ⟨-, cs, outputs, memo, hk, -⟩ :=
      executeFrom_traces (fun s _ c => steps_keep r s c _) h
    exact ⟨cs, hk.ledger⟩

/-- **Exactly-once compensation.** In the trace of every run that starts, the compensations that are
started are those of the completions that some failed run encloses, each as often as it completed.
And wherever a run, the whole or one inside it, has failed, it has compensated the completions in it
that no failed run further in had settled, in the exact reverse of their order: each compensation is
told, its callable is handed the output if it is registered, and the next follows whatever came of it.
A run that has not failed compensates nothing. -/
theorem run_compensates_once (r : Runner κ) (w : Workflow) (id : String) (inputs : Fields)
    (t : Trace κ) (x : Execution) (h : (r.run w id inputs).Traces t (.ok x)) :
    (∃ cs, t.Lists cs ∧ t.rollbacks.Perm
      ((owedFor (cs.filter fun c => t.settled c.site)).map Compensation.notice)) ∧
      ∀ site, (t.inside site).Settles r := by
  obtain ⟨cs, hl⟩ := run_traces h
  exact ⟨⟨cs, hl.lists, hl.rollbacks⟩, hl.settles⟩

end Runner

namespace Sample

/-- A registry of three callables, and of a workflow with a single step. -/
def registry : Registry String where
  callables := [("boom", "boom"), ("make", "make"), ("undo", "undo")]
  workflows := [("child", { Workflow.empty "child" with
    steps := [{ Step.call "inner" "make" with rollback := some "undo" }] })]

/-- A workflow that makes something, runs another that does so too, and then fails. -/
def failing : Workflow :=
  { Workflow.empty "main" with
    steps := [{ Step.call "outer" "make" with rollback := some "undo" },
      Step.subworkflow "nested" "child", Step.call "last" "boom"] }

/-- Answers by which only `boom` fails. -/
def answers (_ : Nat) (q : Inquiry String) : q.Answer :=
  q.request.steadily (fun name => if name = "boom" then 1 else 0)
    fun ticket => if ticket = 1 then .error "boom" else .ok { output := .str "made" }

end Sample

namespace Runner

/-- Of two steps, one of them inside a run inside a step, the inner one is compensated first. -/
theorem run_compensates_once_failing : ∃ (t : Trace String) (x : Execution),
    (run { registry := Sample.registry } Sample.failing "1" []).Traces t (.ok x) ∧
      t.rollbacks = [("inner", "undo"), ("outer", "undo")] ∧
      (∃ cs, t.Lists cs ∧ t.rollbacks.Perm
        ((owedFor (cs.filter fun c => t.settled c.site)).map Compensation.notice)) ∧
      ∀ site, (t.inside site).Settles { registry := Sample.registry } := by
  have hu := follow_unfolds Sample.answers 0
    (run { registry := Sample.registry } Sample.failing "1" [])
  refine ⟨_, _, ⟨_, hu, rfl⟩, rfl, ?_⟩
  exact run_compensates_once _ _ _ _ _ _ ⟨_, hu, rfl⟩

end Runner

end Stepflow
