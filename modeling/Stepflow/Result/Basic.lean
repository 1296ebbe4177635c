import Stepflow.Step.Basic
import Stepflow.Workflow.Codec

/-!
# Results

What a step and a run of a workflow came to. The result of a step holds the results of the steps
inside it. `sameOutcome` compares two results and leaves out how long things took; for runs it also
leaves out the run's identifier and the wording of its error.
-/

namespace Stepflow

/-- How a step ended. -/
inductive StepStatus where
  /-- It succeeded. -/
  | passed
  /-- It is a validation that succeeded after at least one fix. -/
  | fixed
  /-- It was not run, or its failure was pardoned. -/
  | skipped
  /-- It failed. -/
  | failed
  /-- It was cancelled. -/
  | cancelled
  deriving DecidableEq, Repr

namespace StepStatus

/-- All endings, in the order in which they are numbered. -/
def all : List StepStatus := [.passed, .fixed, .skipped, .failed, .cancelled]

/-- The word for an ending. -/
def word : StepStatus → String
  | .passed => "passed"
  | .fixed => "fixed"
  | .skipped => "skipped"
  | .failed => "failed"
  | .cancelled => "cancelled"

/-- The ending that a word names. -/
def ofWord? (word : String) : Option StepStatus := all.find? fun s => s.word = word

/-- Whether the workflow goes on after this ending. -/
def isSuccess : StepStatus → Bool
  | .passed | .fixed | .skipped => true
  | .failed | .cancelled => false

/-- Whether the step completed its work. -/
def isDone : StepStatus → Bool
  | .passed | .fixed => true
  | .skipped | .failed | .cancelled => false

end StepStatus

/-- What a step came to. -/
structure StepResult where
  /-- The name of the step. -/
  name : String
  /-- Its kind. -/
  type : StepType
  /-- How it ended. -/
  status : StepStatus
  /-- What it produced. -/
  output : Value := .null
  /-- Why it failed or was skipped. -/
  error : Option String := none
  /-- The number of tries, or of fixes for a validation. -/
  attempts : Nat := 0
  /-- How long it took, in milliseconds. -/
  durationMs : Nat := 0
  /-- What the steps inside it came to. -/
  children : List StepResult := []

namespace StepResult

/-- The result of a step that was cancelled before it did anything. -/
def cancelled (s : Step) : StepResult := { name := s.name, type := s.type, status := .cancelled }

/-- The result of a step that was not run. -/
def skipped (s : Step) (reason : Option String) : StepResult :=
  { name := s.name, type := s.type, status := .skipped, error := reason }

/-- Whether the workflow goes on after this result. -/
def success (r : StepResult) : Bool := r.status.isSuccess

mutual

/-- Whether two results are the same; floating-point numbers are compared as numbers. -/
def same : StepResult → StepResult → Bool
  | ⟨name, type, status, output, error, attempts, durationMs, children⟩, s =>
    name == s.name && type == s.type && status == s.status && output.same s.output &&
      error == s.error && attempts == s.attempts && durationMs == s.durationMs &&
      sameAll children s.children

/-- Whether two lists of results are the same. -/
def sameAll : List StepResult → List StepResult → Bool
  | [], [] => true
  | a :: as, b :: bs => same a b && sameAll as bs
  | _, _ => false

end

mutual

/-- Whether two results are the same up to how long the steps took. -/
def sameOutcome : StepResult → StepResult → Bool
  | ⟨name, type, status, output, error, attempts, _, children⟩, s =>
    name == s.name && type == s.type && status == s.status && output.same s.output &&
      error == s.error && attempts == s.attempts && sameOutcomes children s.children

/-- Whether two lists of results are the same up to how long the steps took. -/
def sameOutcomes : List StepResult → List StepResult → Bool
  | [], [] => true
  | a :: as, b :: bs => sameOutcome a b && sameOutcomes as bs
  | _, _ => false

end

end StepResult

/-- Where a run stands. -/
inductive RunState where
  /-- It has not begun. -/
  | notStarted
  /-- It is under way. -/
  | running
  /-- It succeeded. -/
  | completed
  /-- It failed. -/
  | failed
  /-- It was cancelled. -/
  | cancelled
  deriving DecidableEq, Repr

namespace RunState

/-- All states, in the order in which they are numbered. -/
def all : List RunState := [.notStarted, .running, .completed, .failed, .cancelled]

/-- The word for a state. -/
def word : RunState → String
  | .notStarted => "not_started"
  | .running => "running"
  | .completed => "completed"
  | .failed => "failed"
  | .cancelled => "cancelled"

/-- The state that a word names. -/
def ofWord? (word : String) : Option RunState := all.find? fun s => s.word = word

/-- Whether a run stays in the state for good. -/
def isTerminal : RunState → Bool
  | .completed | .failed | .cancelled => true
  | .notStarted | .running => false

/-- Whether a run may pass from one state to another: it begins once and ends once. -/
def canBecome : RunState → RunState → Bool
  | .notStarted, .running => true
  | .running, next => next.isTerminal
  | _, _ => false

end RunState

/-- What a run of a workflow came to. -/
structure RunResult where
  /-- The name of the workflow. -/
  workflow : String
  /-- The identifier of the run. -/
  runId : String
  /-- Whether it succeeded. -/
  success : Bool
  /-- What its steps came to, in order. -/
  steps : List StepResult
  /-- Whether it was cancelled. -/
  cancelled : Bool
  /-- What the last step that produced anything produced. -/
  output : Value := .null
  /-- What stopped it, if it failed. -/
  error : Option String := none
  /-- How long it took, in milliseconds. -/
  totalMs : Nat := 0

namespace RunResult

/-- The state that the run ended in. -/
def state (r : RunResult) : RunState :=
  if r.cancelled then .cancelled else if r.success then .completed else .failed

/-- The result of the first step of a name. -/
def step? (r : RunResult) (name : String) : Option StepResult :=
  r.steps.find? fun s => s.name = name

/-- The first step that failed. -/
def failedStep? (r : RunResult) : Option StepResult := r.steps.find? fun s => s.status = .failed

/-- Whether two runs came to the same, whatever their identifiers and however long they took. -/
def sameOutcome (a b : RunResult) : Bool :=
  a.workflow == b.workflow && a.success == b.success && a.cancelled == b.cancelled &&
    a.output.same b.output && StepResult.sameOutcomes a.steps b.steps

end RunResult

/-!
## Results as documents

Results are written as objects and read back from them. A field that has its default may be missing;
an error and the results of inner steps are left out where there are none.
-/

namespace StepResult

mutual

/-- The object of a result. -/
def toValue : StepResult → Value
  | ⟨name, type, status, output, error, attempts, durationMs, children⟩ =>
    .obj ([("name", .str name), ("step_type", .str type.word), ("status", .str status.word),
      ("output", output)] ++ fieldOf "error" .str error ++
      [("attempts", .int attempts), ("duration_ms", .int durationMs)] ++
      fieldUnless children.isEmpty "children" (.arr (toValues children)))

/-- The objects of results. -/
def toValues : List StepResult → List Value
  | [] => []
  | r :: rest => toValue r :: toValues rest

end

/-- The fields of a result, in order. -/
def fields : List String :=
  ["name", "step_type", "status", "output", "error", "attempts", "duration_ms", "children"]

/-- The first number that is too large for a duration. -/
def durationBound : Nat := Nat.pow 2 64

/-- Reads a result whose item is at most `room` high. -/
def read? : (room : Nat) → Item → Option StepResult
  | 0, _ => none
  | room + 1, i => do
    let found ← i.record? fields
    let name ← Item.required? found "name" Item.text?
    let type ← Item.required? found "step_type" (Item.choice? StepType.ofWord?)
    let status ← Item.required? found "status" (Item.choice? StepStatus.ofWord?)
    let output ← Item.field? found "output" .null Item.value?
    let error ← Item.field? found "error" none (Item.optional? Item.text?)
    let attempts ← Item.field? found "attempts" 0 (Item.nat? countBound)
    let durationMs ← Item.field? found "duration_ms" 0 (Item.nat? durationBound)
    let children ← Item.field? found "children" [] (Item.list? (read? room))
    some { name, type, status, output, error, attempts, durationMs, children }

/-- Reads a result. -/
def ofItem? (i : Item) : Option StepResult := read? i.height i

end StepResult

namespace RunResult

/-- The object of the result of a run. -/
def toValue (r : RunResult) : Value :=
  .obj ([("workflow_name", .str r.workflow), ("workflow_id", .str r.runId),
    ("success", .bool r.success), ("step_results", .arr (StepResult.toValues r.steps)),
    ("cancelled", .bool r.cancelled), ("final_output", r.output)] ++
    fieldOf "error" .str r.error ++ [("total_ms", .int r.totalMs)])

/-- Reads the result of a run. -/
def ofItem? (i : Item) : Option RunResult := do
  let found ← i.record? ["workflow_name", "workflow_id", "success", "step_results", "cancelled",
    "final_output", "error", "total_ms"]
  let workflow ← Item.required? found "workflow_name" Item.text?
  let runId ← Item.required? found "workflow_id" Item.text?
  let success ← Item.required? found "success" Item.bool?
  let steps ← Item.required? found "step_results" (Item.list? StepResult.ofItem?)
  let cancelled ← Item.required? found "cancelled" Item.bool?
  let output ← Item.field? found "final_output" .null Item.value?
  let error ← Item.field? found "error" none (Item.optional? Item.text?)
  let totalMs ← Item.required? found "total_ms" (Item.nat? StepResult.durationBound)
  some { workflow, runId, success, steps, cancelled, output, error, totalMs }

end RunResult

end Stepflow
