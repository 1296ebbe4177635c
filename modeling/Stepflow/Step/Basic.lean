import Stepflow.Expression.Basic
import Stepflow.Retry
import Stepflow.Text.Basic
import Stepflow.Value

/-!
# Steps

A step has a name, one of seven kinds and a number of decorations: a condition, a retry policy, a
fallback, the leave to fail, a compensation, and the wish for a checkpoint. Four kinds of steps
hold other steps: the fix of a validation, the options of a branch, the members of a group, and the
fallback of a step of any kind.

`StepKind` is written over the type of the steps inside it, so that `Step` is one structure.
-/

namespace Stepflow

/-- The name of a kind of step. -/
inductive StepType where
  /-- Calls a registered callable. -/
  | call
  /-- Executes a registered agent. -/
  | agent
  /-- Has a registered generator produce text. -/
  | generate
  /-- Runs validation stages, with fixes in between. -/
  | validate
  /-- Runs a registered workflow inside this one. -/
  | subworkflow
  /-- Runs the first option whose condition holds. -/
  | branch
  /-- Runs a group of steps side by side. -/
  | parallel
  deriving DecidableEq, Repr

namespace StepType

/-- All kinds, in the order in which they are numbered. -/
def all : List StepType := [.call, .agent, .generate, .validate, .subworkflow, .branch, .parallel]

/-- The word that documents use for a kind. -/
def word : StepType → String
  | .call => "python"
  | .agent => "agent"
  | .generate => "generate"
  | .validate => "validate"
  | .subworkflow => "subworkflow"
  | .branch => "branch"
  | .parallel => "parallel"

/-- The kind that a word names. -/
def ofWord? (word : String) : Option StepType := all.find? fun t => t.word = word

end StepType

/-- One option of a branch. -/
structure BranchOption (α : Type) where
  /-- When this option is taken. -/
  condition : Expression
  /-- What is then run. -/
  step : α

/-- What a step does, over the type of the steps inside it. -/
inductive StepKind (α : Type) where
  /-- Calls the callable `action`. -/
  | call (action : String) (args : List Value) (kwargs : Fields)
  /-- Executes an agent with a context, which a context builder may make from the inline one. -/
  | agent (agent : String) (context : Fields) (builder : Option String)
  /-- Has a generator produce text from a context. -/
  | generate (generator : String) (context : Fields) (builder : Option String)
  /-- Calls the stages in order up to the first that fails; up to `retry` times the fix is run and
  the stages are called again. -/
  | validate (stages : List String) (retry : Nat) (onFailure : Option α)
  /-- Runs a workflow with the given inputs. -/
  | subworkflow (workflow : String) (inputs : Fields)
  /-- Runs the first option whose condition holds. -/
  | branch (options : List (BranchOption α))
  /-- Runs all members side by side. -/
  | parallel (members : List α)

/-- The name of what a step does. -/
def StepKind.type {α : Type} : StepKind α → StepType
  | .call .. => .call
  | .agent .. => .agent
  | .generate .. => .generate
  | .validate .. => .validate
  | .subworkflow .. => .subworkflow
  | .branch .. => .branch
  | .parallel .. => .parallel

/-- The steps directly inside a kind of step. -/
def StepKind.inner {α : Type} : StepKind α → List α
  | .validate _ _ fix => fix.toList
  | .branch options => options.map BranchOption.step
  | .parallel members => members
  | .call .. | .agent .. | .generate .. | .subworkflow .. => []

/-- The fix attempts of a validation that does not say how many. -/
def defaultFixAttempts : Nat := 3

/-- A step. -/
structure Step where
  /-- The name, meant to be unique in a workflow. -/
  name : String
  /-- What the step does. -/
  kind : StepKind Step
  /-- When the step is run; always, if there is no condition. -/
  condition : Option Expression := none
  /-- How often it is tried; once, if there is no policy. -/
  retryPolicy : Option RetryPolicy := none
  /-- The fallback that is run if the step fails. -/
  onError : Option Step := none
  /-- Whether a failure only skips the step. -/
  skipOnError : Bool := false
  /-- The callable that compensates the step if the workflow fails later. -/
  rollback : Option String := none
  /-- Whether a checkpoint is saved once the step is done. -/
  checkpoint : Bool := false

namespace Step

/-- The kind of a step. -/
def type (s : Step) : StepType := s.kind.type

/-- The steps directly inside a step: those of its kind, then its fallback. -/
def nested (s : Step) : List Step := s.kind.inner ++ s.onError.toList

end Step

end Stepflow

/-!
## Captions

What diagrams say about a step: a summary of what it does, and remarks about its decorations.
-/

namespace Stepflow.Step

/-- What a step does, in a few words. -/
def summary (s : Step) : String :=
  match s.kind with
  | .call action _ _ => "python: " ++ action
  | .agent agent _ _ => "agent: " ++ agent
  | .generate generator _ _ => "generate: " ++ generator
  | .validate stages _ _ => "validate: " ++ Text.joinWith ", " stages
  | .subworkflow workflow _ => "subworkflow: " ++ workflow
  | .branch _ => "branch"
  | .parallel _ => "parallel"

/-- One remark for each decoration of a step, the fallback apart. -/
def remarks (s : Step) : List String :=
  (s.condition.map fun e => "when " ++ e.raw).toList ++
    (s.retryPolicy.map fun p => "retry x" ++ toString p.maxAttempts).toList ++
    (if s.skipOnError then ["skip on error"] else []) ++
    (s.rollback.map fun action => "rollback " ++ action).toList ++
    (if s.checkpoint then ["checkpoint"] else [])

/-- The remarks in parentheses. -/
def remarkText (s : Step) : String :=
  if s.remarks.isEmpty then "" else " (" ++ Text.joinWith "; " s.remarks ++ ")"

end Stepflow.Step
