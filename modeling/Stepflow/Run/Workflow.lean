import Stepflow.Run.Component
import Stepflow.Run.Step

/-!
# Running a workflow

A run takes the steps of a workflow one after the other. It ends when all are done, when a step fails
or its checkpoint cannot be saved, or when all is cancelled. A run that fails compensates what it
owes, the newest first; a run that succeeds removes its checkpoints; a run that is cancelled does
neither, and records the steps that it did not reach as cancelled.

Steps may run workflows in turn. A workflow under way is never run inside itself, so runs are nested
at most once for every registered workflow; `Runner.execute` counts these levels down.
-/

/-!
## Replay

A run that is resumed does not run the steps again that its checkpoint records. It takes their results
over and rebuilds from them what the run had then: the outputs that references may name, and the
compensations that are owed. Both are read off the recorded results and the steps of the workflow;
only what passed counts, and inside a result that did not pass nothing does.

`Place` is where a run stands between two of its steps, whether it came there live or by replay.
-/

namespace Stepflow

namespace StepResult

mutual

/-- The outputs that a result records: those of the results inside it, then its own. -/
def recordedOutputs : StepResult → List (String × Value)
  | ⟨name, _, status, output, _, _, _, children⟩ =>
    if status.isDone then recordedOutputsOf children ++ [(name, output)] else []

/-- The outputs that results record. -/
def recordedOutputsOf : List StepResult → List (String × Value)
  | [] => []
  | r :: rest => recordedOutputs r ++ recordedOutputsOf rest

end

mutual

/-- The compensations that a result records for its step: those of the results inside it whose names
are names of steps directly inside the step, then its own. -/
def recordedCompensations : StepResult → Step → List Compensation
  | ⟨_, _, status, output, _, _, _, children⟩, s =>
    if status.isDone then
      recordedCompensationsOf children s.nested ++
        s.rollback.toList.map fun action => ⟨s.name, action, output⟩
    else []

/-- The compensations that results record for those of some steps that have their names. -/
def recordedCompensationsOf : List StepResult → List Step → List Compensation
  | [], _ => []
  | r :: rest, steps =>
    (match steps.find? fun s => s.name = r.name with
      | some s => recordedCompensations r s
      | none => []) ++ recordedCompensationsOf rest steps

end

end StepResult

/-- Where a run stands between two of its steps. -/
structure Place where
  /-- What references can name. -/
  context : Context
  /-- The results so far. -/
  results : List StepResult := []
  /-- The compensations owed so far, in the order of completion. -/
  owed : List Compensation := []

namespace Place

/-- The place after a step that was run. -/
def after (p : Place) (o : StepOutcome) : Place :=
  { context := p.context.setOutputs o.effects.outputs
    results := p.results ++ [o.result]
    owed := p.owed ++ o.effects.compensations }

/-- The place after a step whose result is recorded. -/
def afterRecorded (p : Place) (s : Step) (r : StepResult) : Place :=
  { context := p.context.setOutputs r.recordedOutputs
    results := p.results ++ [r]
    owed := p.owed ++ r.recordedCompensations s }

/-- **Replay**: the place after recorded results, each of which must be one of the step at its
position; `index` is the position of the first. -/
def replay : (index : Nat) → List Step → List StepResult → Place → Except Refusal Place
  | _, _, [], p => .ok p
  | index, [], r :: _, _ => .error (.otherStep index "" r.name)
  | index, s :: steps, r :: results, p =>
    if s.name = r.name then replay (index + 1) steps results (p.afterRecorded s r)
    else .error (.otherStep index s.name r.name)

end Place

end Stepflow

/-! ## The steps one after the other -/

namespace Stepflow

/-- How the steps of a run came to their end. -/
inductive Ending where
  /-- All steps are done. -/
  | finished
  /-- All was cancelled. -/
  | cancelled
  /-- Something failed. -/
  | failed (error : String)

namespace Ending

/-- The state that a run with this ending is in. -/
def state : Ending → RunState
  | .finished => .completed
  | .cancelled => .cancelled
  | .failed _ => .failed

/-- The error of a run with this ending. -/
def error? : Ending → Option String
  | .failed error => some error
  | .finished | .cancelled => none

end Ending

/-- The state after a change; a change that is not allowed is ignored. -/
def RunState.advance (now next : RunState) : RunState := if now.canBecome next then next else now

/-- What a run produces: the output of its last successful step that produced anything. -/
def finalOutput (results : List StepResult) : Value :=
  match results.reverse.find? fun r => r.success && !r.output.isNull with
  | some r => r.output
  | none => .null

namespace Runner

variable {κ : Type}

/-- Saves a checkpoint after a step, and tells so. -/
def saveCheckpoint (w : Workflow) (scope : Scope) (inputs : Fields) (step : String)
    (results : List StepResult) : RunScript κ (Except CheckpointError Unit) := do
  let id : String ← RunScript.request .freshId
  let savedAt : Instant ← RunScript.request .today
  let c : Checkpoint :=
    { id, workflow := w.name, inputsHash := inputsHash inputs, steps := results, savedAt }
  let saved : Except CheckpointError Unit ← RunScript.request (.save scope.runId c)
  match saved with
  | .error e => return .error e
  | .ok () =>
    RunScript.tell (.checkpointSaved w.name scope.runId step id)
    return .ok ()

/-- **Runs steps** one after the other from a place on, with `run` for one step and `save` for its
checkpoint. -/
def steps (run : Context → Step → RunScript κ StepOutcome)
    (save : Step → List StepResult → RunScript κ (Except CheckpointError Unit)) :
    List Step → Place → RunScript κ (Place × Ending)
  | [], p => .done (p, .finished)
  | s :: rest, p =>
    RunScript.isCancelled.andThen fun cancelled =>
      if cancelled then .done (p, .cancelled)
      else ((run p.context s).under (.declared p.results.length)).andThen fun o =>
        let p := p.after o
        match o.result.status with
        | .cancelled => .done (p, .cancelled)
        | .failed =>
          .done (p, .failed ("step '" ++ s.name ++ "' failed: " ++ o.result.error.getD ""))
        | .skipped => steps run save rest p
        | .passed | .fixed =>
          (save s p.results).andThen fun
            | .ok () => steps run save rest p
            | .error e =>
              .done (p, .failed ("checkpoint after step '" ++ s.name ++ "' failed: " ++ e.message))

/-- Compensates steps in the order given; a compensation that fails does not stop the others. -/
def rollback (r : Runner κ) (workflow : String) : List Compensation → RunScript κ Unit
  | [] => .done ()
  | owed :: rest => do
    RunScript.tell (.rollbackStarted workflow owed.step owed.action)
    let error ← r.compensate owed
    RunScript.tell (.rollbackCompleted workflow owed.step error)
    r.rollback workflow rest

/-- Removes the checkpoints of a run that succeeded, unless they are to stay. -/
def clearCheckpoints (r : Runner κ) (scope : Scope) : RunScript κ Unit :=
  if scope.persist && r.config.clearOnSuccess then
    (RunScript.request (.clear scope.runId)).andThen fun _ => .done ()
  else .done ()

/-- The results of a run: steps that were not reached are recorded as cancelled if the run was. -/
def resultsAtEnd (w : Workflow) (ending : Ending) (results : List StepResult) : List StepResult :=
  match ending with
  | .cancelled => results ++ (w.steps.drop results.length).map StepResult.cancelled
  | .finished | .failed _ => results

/-- What a run that comes to its end does about the compensations that it owes: one that fails settles
them, and owes none after that. -/
def settle (r : Runner κ) (workflow : String) (scope : Scope) (owed : List Compensation) :
    Ending → RunScript κ (List Compensation)
  | .failed _ => (r.rollback workflow owed.reverse).andThen fun _ => .done []
  | .cancelled => .done owed
  | .finished => (r.clearCheckpoints scope).andThen fun _ => .done owed

/-- Ends a run that began at a time. -/
def conclude (r : Runner κ) (w : Workflow) (scope : Scope) (began : Nat) (p : Place)
    (ending : Ending) : RunScript κ Execution := do
  let results := resultsAtEnd w ending p.results
  let owed ← r.settle w.name scope p.owed ending
  let totalMs ← RunScript.millisecondsSince began
  let state := (RunState.notStarted.advance .running).advance ending.state
  let result : RunResult :=
    { workflow := w.name, runId := scope.runId, success := state = .completed, steps := results
      cancelled := state = .cancelled, output := finalOutput results, error := ending.error?, totalMs }
  RunScript.tell (.workflowCompleted w.name scope.runId result.success result.cancelled totalMs)
  return { result, compensations := owed, state }

/-- Runs a workflow with resolved inputs after recorded results, with `execute` for the workflows that
its steps run. -/
def executeFrom (r : Runner κ) (execute : Execute κ) (recorded : List StepResult) : Execute κ :=
  fun w inputs scope =>
    if w.steps.isEmpty then .done (.error (.noSteps w.name))
    else match Place.replay 0 w.steps recorded { context := ⟨inputs, [], r.config.values⟩ } with
      | .error e => .done (.error e)
      | .ok p => do
        let began ← RunScript.now
        RunScript.tell
          (.workflowStarted w.name scope.runId w.steps.length recorded.length)
        let save (s : Step) (results : List StepResult) :
            RunScript κ (Except CheckpointError Unit) :=
          if s.checkpoint && scope.persist then saveCheckpoint w scope inputs s.name results
          else .done (.ok ())
        let (p, ending) ←
          steps (fun c s => r.step execute c scope s) save (w.steps.drop recorded.length) p
        return .ok (← r.conclude w scope began p ending)

/-- Runs a workflow inside a step, where runs can be nested `levels` deep. On the last level there is
no workflow left that is not under way, so only one that is unknown, and has no steps, comes there. -/
def execute (r : Runner κ) : (levels : Nat) → Execute κ
  | 0 => fun w _ _ => .done (.error (.noSteps w.name))
  | levels + 1 => r.executeFrom (r.execute levels) []

/-- How deep runs can be nested: every registered workflow once. -/
def levels (r : Runner κ) : Nat := r.registry.workflows.length

/-- **A run** of a workflow with some inputs and an identifier. -/
def run (r : Runner κ) (w : Workflow) (runId : String) (inputs : Fields) :
    RunScript κ (Except Refusal Execution) :=
  match w.resolveInputs inputs with
  | .error e => .done (.error (.inputs e))
  | .ok inputs =>
    r.executeFrom (r.execute r.levels) [] w inputs (.root w.name runId r.hasStore)

/-- A run under a fresh identifier. -/
def runFresh (r : Runner κ) (w : Workflow) (inputs : Fields) :
    RunScript κ (Except Refusal Execution) :=
  (RunScript.request .freshId).andThen fun id => r.run w id inputs

/-- The recorded results that a run of a workflow is resumed from, given its newest checkpoint. -/
def recordedIn (w : Workflow) (runId : String) (inputs : Fields) :
    Except CheckpointError (Option Checkpoint) → Except Refusal (List StepResult)
  | .error e => .error (.checkpoint e)
  | .ok none => .error (.checkpoint (.notFound runId none))
  | .ok (some c) =>
    if c.workflow ≠ w.name then .error (.otherWorkflow w.name c.workflow)
    else if c.inputsHash ≠ inputsHash inputs then
      .error (.checkpoint (.inputMismatch runId c.inputsHash (inputsHash inputs)))
    else .ok c.steps

/-- **A run that is resumed** from its newest checkpoint. -/
def resume (r : Runner κ) (w : Workflow) (runId : String) (inputs : Fields) :
    RunScript κ (Except Refusal Execution) :=
  if !r.hasStore then .done (.error .noStore)
  else match w.resolveInputs inputs with
    | .error e => .done (.error (.inputs e))
    | .ok inputs =>
      (RunScript.request (.latest runId)).andThen fun newest =>
        match recordedIn w runId inputs newest with
        | .error e => .done (.error e)
        | .ok recorded =>
          r.executeFrom (r.execute r.levels) recorded w inputs (.root w.name runId true)

/-- **A dry run**: checks the inputs and tells what would be run. -/
def dryRun (w : Workflow) (inputs : Fields) : Except Refusal RunResult :=
  match w.resolveInputs inputs with
  | .error e => .error (.inputs e)
  | .ok _ =>
    if w.steps.isEmpty then .error (.noSteps w.name)
    else .ok
      { workflow := w.name, runId := "", success := true, cancelled := false
        steps := w.steps.map fun s => .skipped s (some "dry run") }

end Runner

end Stepflow
