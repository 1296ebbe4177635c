import Stepflow.Proofs.Run.Gist

/-!
# Runs that came to the same

Two results of steps have the same outcome if they are the same once all durations are left out, at any
depth (`StepResult.sameOutcome_eq`). Two results of runs should, once the identifier of the run and its time
are left out as well. They need less: the error that stopped the run is not compared, so two runs that agree
in all else have the same outcome whatever stopped them (`sameOutcome_exact_iff`).
-/

namespace Stepflow

namespace StepResult

variable {r s : StepResult}

/-- Results are the same if all that they hold is the same. -/
theorem same_iff : r.same s = true ↔
    r.name = s.name ∧ r.type = s.type ∧ r.status = s.status ∧ r.output.same s.output = true ∧
      r.error = s.error ∧ r.attempts = s.attempts ∧ r.durationMs = s.durationMs ∧
        sameAll r.children s.children = true := by
  cases r
  simp only [same, Bool.and_eq_true, beq_iff_eq, and_assoc]

/-- Outcomes are the same if all that results hold is the same, the durations aside. -/
theorem sameOutcome_iff : r.sameOutcome s = true ↔
    r.name = s.name ∧ r.type = s.type ∧ r.status = s.status ∧ r.output.same s.output = true ∧
      r.error = s.error ∧ r.attempts = s.attempts ∧ sameOutcomes r.children s.children = true := by
  cases r
  simp only [sameOutcome, Bool.and_eq_true, beq_iff_eq, and_assoc]

mutual

/-- **Steps have the same outcome** if their results are the same without durations, at all depths. -/
theorem sameOutcome_eq : ∀ r s : StepResult, r.sameOutcome s = r.gist.same s.gist
  | ⟨name, type, status, output, error, attempts, durationMs, children⟩,
      ⟨name', type', status', output', error', attempts', durationMs', children'⟩ => by
    have hchildren := sameOutcomes_eq children children'
    rw [Bool.eq_iff_iff, sameOutcome_iff, same_iff]
    simp only [gist, hchildren, true_and]

/-- And so it is with lists of results. -/
theorem sameOutcomes_eq : ∀ as bs : List StepResult, sameOutcomes as bs = sameAll (gists as) (gists bs)
  | [], [] => rfl
  | [], _ :: _ => rfl
  | _ :: _, [] => rfl
  | a :: as, b :: bs => by
    rw [sameOutcomes, gists, gists, sameAll, sameOutcome_eq a b, sameOutcomes_eq as bs]

end

end StepResult

namespace RunResult

variable {a b : RunResult}

/-- Whether two results of runs are the same in everything. -/
def same (a b : RunResult) : Bool :=
  a.workflow == b.workflow && a.runId == b.runId && a.success == b.success &&
    StepResult.sameAll a.steps b.steps && a.cancelled == b.cancelled && a.output.same b.output &&
    a.error == b.error && a.totalMs == b.totalMs

/-- **What a run came to**: its result without its identifier and without times, at all depths. -/
def essence (x : RunResult) : RunResult := { x.gist with runId := "" }

theorem same_essence_iff : a.essence.same b.essence = true ↔
    a.workflow = b.workflow ∧ a.success = b.success ∧ a.cancelled = b.cancelled ∧
      a.output.same b.output = true ∧ StepResult.sameOutcomes a.steps b.steps = true ∧
        a.error = b.error := by
  rw [StepResult.sameOutcomes_eq, StepResult.gists_eq, StepResult.gists_eq]
  simp only [same, essence, gist, Bool.and_eq_true, beq_iff_eq, and_true]
  tauto

theorem sameOutcome_iff : a.sameOutcome b = true ↔
    a.workflow = b.workflow ∧ a.success = b.success ∧ a.cancelled = b.cancelled ∧
      a.output.same b.output = true ∧ StepResult.sameOutcomes a.steps b.steps = true := by
  simp only [sameOutcome, Bool.and_eq_true, beq_iff_eq, and_assoc]

/-- **Runs came to the same** if, of what they came to, all but the error is the same. -/
theorem same_essence_iff_sameOutcome :
    a.essence.same b.essence = true ↔ a.sameOutcome b = true ∧ a.error = b.error := by
  rw [same_essence_iff, sameOutcome_iff]
  simp only [and_assoc]

/-- **The comparison of outcomes passes over the error of the run, and over nothing else.** So it says that
two runs came to the same exactly if they did, unless they are told apart by their errors alone. -/
theorem sameOutcome_exact_iff (a b : RunResult) :
    (a.sameOutcome b = true ↔
      { a with error := none }.essence.same { b with error := none }.essence = true) ∧
    ((a.sameOutcome b = true ↔ a.essence.same b.essence = true) ↔
      (a.sameOutcome b = true → a.error = b.error)) := by
  have hforget : { a with error := none }.sameOutcome { b with error := none } = a.sameOutcome b := rfl
  refine ⟨?_, ?_⟩
  · rw [same_essence_iff_sameOutcome, hforget]
    exact (and_iff_left rfl).symm
  · rw [same_essence_iff_sameOutcome]
    exact iff_self_and

end RunResult

namespace Sample

/-- A run that was stopped before its first step. -/
def stopped (error : String) : RunResult :=
  { workflow := "main", runId := "r", success := false, steps := [], cancelled := false, error := some error }

end Sample

namespace RunResult

open Sample

/-- **Runs that came to different things** can have the same outcome: of two that failed, one found the disk
full and the other was not allowed to write. -/
theorem not_sameOutcome_exact :
    ¬ ∀ a b : RunResult, a.sameOutcome b = true ↔ a.essence.same b.essence = true := by
  intro h
  have hsame : (stopped "disk full").sameOutcome (stopped "permission denied") = true := by decide
  have herror := (same_essence_iff_sameOutcome.1 ((h _ _).1 hsame)).2
  exact absurd herror (by decide)

end RunResult

end Stepflow
