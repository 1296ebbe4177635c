import Stepflow.Workflow.Basic

/-!
# When two workflows are the same

Two workflows are the same if they agree in everything; floating-point numbers are compared as
numbers, so a backoff that is not a number is not the same as itself.
-/

namespace Stepflow

/-- Whether two things that may be missing are both missing, or both there and related. -/
def sameOption {α : Type} (same : α → α → Bool) : Option α → Option α → Bool
  | none, none => true
  | some a, some b => same a b
  | _, _ => false

/-- Whether two retry policies are the same. -/
def RetryPolicy.same (p q : RetryPolicy) : Bool :=
  p.maxAttempts == q.maxAttempts && p.backoff == q.backoff

/-- Whether two declarations of inputs are the same. -/
def InputDeclaration.same (a b : InputDeclaration) : Bool :=
  a.type == b.type && a.required == b.required && sameOption Value.same a.default b.default &&
    a.description == b.description

namespace Step

mutual

/-- Whether two steps are the same. -/
def same : Step → Step → Bool
  | ⟨name, kind, condition, retryPolicy, onError, skipOnError, rollback, checkpoint⟩, s =>
    name == s.name && sameKind kind s.kind && condition == s.condition &&
      sameOption RetryPolicy.same retryPolicy s.retryPolicy && sameMaybe onError s.onError &&
      skipOnError == s.skipOnError && rollback == s.rollback && checkpoint == s.checkpoint

/-- Whether two steps do the same. -/
def sameKind : StepKind Step → StepKind Step → Bool
  | .call a args kwargs, .call a' args' kwargs' =>
    a == a' && Value.sameList args args' && Value.sameFields kwargs kwargs'
  | .agent a c b, .agent a' c' b' => a == a' && Value.sameFields c c' && b == b'
  | .generate g c b, .generate g' c' b' => g == g' && Value.sameFields c c' && b == b'
  | .validate stages retry fix, .validate stages' retry' fix' =>
    stages == stages' && retry == retry' && sameMaybe fix fix'
  | .subworkflow w inputs, .subworkflow w' inputs' => w == w' && Value.sameFields inputs inputs'
  | .branch options, .branch options' => sameOptions options options'
  | .parallel members, .parallel members' => sameSteps members members'
  | _, _ => false

/-- Whether two steps that may be missing are the same. -/
def sameMaybe : Option Step → Option Step → Bool
  | none, none => true
  | some a, some b => same a b
  | _, _ => false

/-- Whether two lists of options are the same. -/
def sameOptions : List (BranchOption Step) → List (BranchOption Step) → Bool
  | [], [] => true
  | ⟨c, s⟩ :: rest, o :: rest' => c == o.condition && same s o.step && sameOptions rest rest'
  | _, _ => false

/-- Whether two lists of steps are the same. -/
def sameSteps : List Step → List Step → Bool
  | [], [] => true
  | s :: rest, s' :: rest' => same s s' && sameSteps rest rest'
  | _, _ => false

end

end Step

namespace Workflow

/-- Whether two tables of declarations are the same. -/
def sameInputs : Table InputDeclaration → Table InputDeclaration → Bool
  | [], [] => true
  | (k, a) :: as, (l, b) :: bs => k == l && a.same b && sameInputs as bs
  | _, _ => false

/-- Whether two workflows are the same. -/
def same (v w : Workflow) : Bool :=
  v.version == w.version && v.name == w.name && v.description == w.description &&
    sameInputs v.inputs w.inputs && Step.sameSteps v.steps w.steps

end Workflow

end Stepflow
