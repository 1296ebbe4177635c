import Stepflow.Checkpoint.Basic
import Stepflow.Config
import Stepflow.Expression.Basic
import Stepflow.Registry.Basic
import Stepflow.Run.Request
import Stepflow.Workflow.Inputs

/-!
# What steps come to

How steps fail, and what they leave behind whether they do or not.
-/

/-!
## Why steps fail and runs are refused

A run that cannot begin is refused; once it has begun, it is the steps that fail. The failure of a
step that runs a workflow of its own holds the refusal of that workflow.
-/

namespace Stepflow

/-- The ways in which a run can be refused. -/
inductive Refusal where
  /-- Its inputs are. -/
  | inputs (e : InputError)
  /-- The workflow has no steps. -/
  | noSteps (workflow : String)
  /-- A run is to be resumed, but no checkpoints are kept. -/
  | noStore
  /-- The checkpoint is one of another workflow. -/
  | otherWorkflow (expected found : String)
  /-- A recorded step is not the one that the workflow has at its place; beyond the end it has the
  empty name. -/
  | otherStep (index : Nat) (expected found : String)
  /-- The checkpoint cannot be had. -/
  | checkpoint (e : CheckpointError)

/-- The wording of a refusal. -/
def Refusal.message : Refusal → String
  | .inputs e => e.message
  | .noSteps workflow => "workflow '" ++ workflow ++ "' has no steps"
  | .noStore => "no checkpoint store configured"
  | .otherWorkflow expected found =>
    "checkpoint belongs to workflow '" ++ found ++ "', not '" ++ expected ++ "'"
  | .otherStep index expected found =>
    "checkpointed step " ++ toString index ++ " is '" ++ found ++
      "' but the workflow declares '" ++ expected ++ "'"
  | .checkpoint e => e.message

/-- The ways in which a step can fail. -/
inductive StepError where
  /-- A reference in it cannot be read or leads nowhere. -/
  | reference (e : Expression.Failure)
  /-- A component that it calls is not registered. -/
  | unregistered (e : RegistryError)
  /-- A component failed. -/
  | component (name message : String)
  /-- An agent reported failure. -/
  | agent (name : String) (errors : List String)
  /-- A validation stage still failed after the fixes. -/
  | validation (stage reason : String) (fixes : Nat)
  /-- No option's condition holds. -/
  | noOption
  /-- The chosen option failed. -/
  | option (step error : String)
  /-- Two members of a group have one name. -/
  | duplicateName (name : String)
  /-- Members of a group failed. -/
  | members (names : List String)
  /-- The fallback failed too. -/
  | fallback (step error after : String)
  /-- The workflow that the step runs failed. -/
  | nested (workflow : String) (error : Option String)
  /-- The workflow that the step runs was refused. -/
  | refused (workflow : String) (refusal : Refusal)
  /-- The workflow that the step runs is under way already. -/
  | cycle (names : List String)
  /-- All was cancelled. -/
  | cancelled

namespace StepError

/-- The wording of a failure. -/
def message : StepError → String
  | .reference e => e.message
  | .unregistered e => e.message
  | .component name message => name ++ " failed: " ++ message
  | .agent name errors => "agent '" ++ name ++ "' reported failure: " ++ "; ".intercalate errors
  | .validation stage reason fixes =>
    "validation stage '" ++ stage ++ "' failed after " ++ toString fixes ++
      " fix attempt(s): " ++ reason
  | .noOption => "no branch option matched"
  | .option step error => "branch option '" ++ step ++ "' failed: " ++ error
  | .duplicateName name => "duplicate step name '" ++ name ++ "' in parallel group"
  | .members names => "parallel steps failed: " ++ ", ".intercalate names
  | .fallback step error after =>
    "fallback '" ++ step ++ "' failed: " ++ error ++ " (after: " ++ after ++ ")"
  | .nested workflow error =>
    "sub-workflow '" ++ workflow ++ "' failed: " ++ error.getD "unknown error"
  | .refused workflow refusal =>
    "sub-workflow '" ++ workflow ++ "' could not start: " ++ refusal.message
  | .cycle names => "workflow cycle detected: " ++ " -> ".intercalate names
  | .cancelled => "cancelled"

/-- Whether a step ended because all was cancelled. -/
def isCancelled : StepError → Bool
  | .cancelled => true
  | _ => false

end StepError

/-!
## What steps leave behind

A step has a result, which is recorded, and effects, which concern the run around it: outputs that
later steps may refer to, and compensations that are owed if the run fails later. The effects of a
step contain those of the steps inside it, in the order in which they completed; a step that fails
keeps the effects of the inner steps that did not.
-/

/-- A compensation that is owed if the run fails. -/
structure Compensation where
  /-- The name of the step that is to be compensated. -/
  step : String
  /-- The callable that compensates it. -/
  action : String
  /-- What the step produced, which is handed to the callable. -/
  output : Value

/-- What a step leaves behind for the run around it, in the order of completion. -/
structure Effects where
  /-- The outputs, by the names of the steps. -/
  outputs : List (String × Value) := []
  /-- The compensations. -/
  compensations : List Compensation := []

namespace Effects

/-- No effects. -/
def empty : Effects := {}

/-- Effects, and then others. -/
def append (a b : Effects) : Effects :=
  ⟨a.outputs ++ b.outputs, a.compensations ++ b.compensations⟩

instance : Append Effects := ⟨append⟩

/-- The effects of a list of things one after the other. -/
def concat (es : List Effects) : Effects := es.foldr append empty

/-- The outputs of effects one after the other. -/
@[simp] theorem outputs_append (a b : Effects) : (a ++ b).outputs = a.outputs ++ b.outputs := rfl

/-- The compensations of effects one after the other. -/
@[simp] theorem compensations_append (a b : Effects) :
    (a ++ b).compensations = a.compensations ++ b.compensations := rfl

/-- The effects of the completion of a step itself. -/
def ofCompleted (s : Step) (output : Value) : Effects :=
  ⟨[(s.name, output)], s.rollback.toList.map fun action => ⟨s.name, action, output⟩⟩

end Effects

/-- What a step came to and leaves behind. -/
structure StepOutcome where
  /-- The result. -/
  result : StepResult
  /-- The effects. -/
  effects : Effects := .empty

/-- What one try of a step came to, before its decorations. -/
structure Attempt where
  /-- What it produced, or why it failed. -/
  outcome : Except StepError Value
  /-- The fixes made, if it is a validation that passed or ran out of fixes. -/
  fixes : Nat := 0
  /-- The results of the steps inside it. -/
  children : List StepResult := []
  /-- The effects of the steps inside it. -/
  effects : Effects := .empty

namespace Attempt

/-- A try that failed before anything inside it was run. -/
def failed (e : StepError) : Attempt := { outcome := .error e }

/-- Whether the try failed for a reason other than cancellation. -/
def isFailure (a : Attempt) : Bool :=
  match a.outcome with
  | .ok _ => false
  | .error e => !e.isCancelled

end Attempt

/-- Where a step is run. -/
structure Scope where
  /-- The name of the workflow. -/
  workflow : String
  /-- The identifier of the run. -/
  runId : String
  /-- The workflows that are under way, the outermost first. -/
  stack : List String
  /-- Whether the run saves checkpoints. -/
  persist : Bool

namespace Scope

/-- The scope of a run that no other run contains. -/
def root (workflow runId : String) (persist : Bool) : Scope :=
  { workflow, runId, stack := [workflow], persist }

/-- The scope of the workflow that a step runs; it saves no checkpoints. -/
def nested (s : Scope) (workflow step : String) : Scope :=
  { workflow, runId := s.runId ++ "." ++ step, stack := s.stack ++ [workflow], persist := false }

end Scope

/-- What runs workflows: the components, the configuration, and whether checkpoints are kept. -/
structure Runner (κ : Type) where
  /-- The components and workflows that steps refer to. -/
  registry : Registry κ
  /-- The configuration. -/
  config : Config := {}
  /-- Whether there is a store of checkpoints. -/
  hasStore : Bool := false

end Stepflow
