import Stepflow.Step.Basic
import Stepflow.Workflow.Basic

/-!
# Outlines

An outline draws the steps of a workflow as a tree of lines, one line for each step at any depth. A
step is drawn above the steps inside it: the fix, the options or the members, then the fallback.
-/

namespace Stepflow

namespace Outline

/-- What stands in front of the caption of a step: a corner for the last of its siblings. -/
def elbow (last : Bool) : String := if last then "└── " else "├── "

/-- What stands in front of the lines below a step. -/
def trunk (last : Bool) : String := if last then "    " else "│   "

/-- The line of a step; the label says what it is to the step above. -/
def line (margin : String) (last : Bool) (label : Option String) (s : Step) : String :=
  margin ++ elbow last ++ (label.map (· ++ " ")).getD "" ++ s.name ++ " [" ++ s.summary ++ "]" ++
    s.remarkText

mutual

/-- The lines of a step. -/
def step (margin : String) (last : Bool) (label : Option String) : Step → List String
  | ⟨name, kind, condition, retryPolicy, onError, skipOnError, rollback, checkpoint⟩ =>
    line margin last label
        ⟨name, kind, condition, retryPolicy, onError, skipOnError, rollback, checkpoint⟩ ::
      (inner (margin ++ trunk last) onError.isSome kind ++
        optional (margin ++ trunk last) true "on error:" onError)

/-- The lines of the steps inside a kind of step; `more` says that something follows them. -/
def inner (margin : String) (more : Bool) : StepKind Step → List String
  | .validate _ retry fix => optional margin (!more) ("fix x" ++ toString retry ++ ":") fix
  | .branch choices => options margin more choices
  | .parallel steps => members margin more steps
  | .call .. | .agent .. | .generate .. | .subworkflow .. => []

/-- The lines of a step that may be missing. -/
def optional (margin : String) (last : Bool) (label : String) : Option Step → List String
  | none => []
  | some s => step margin last (some label) s

/-- The lines of the options of a branch, each labelled with its condition. -/
def options (margin : String) (more : Bool) : List (BranchOption Step) → List String
  | [] => []
  | ⟨condition, s⟩ :: rest =>
    step margin (rest.isEmpty && !more) (some (condition.raw ++ " ->")) s ++
      options margin more rest

/-- The lines of a list of steps. -/
def members (margin : String) (more : Bool) : List Step → List String
  | [] => []
  | s :: rest => step margin (rest.isEmpty && !more) none s ++ members margin more rest

end

end Outline

/-- The lines of the outline of a workflow: its name and version, then its steps. -/
def Workflow.outlineLines (w : Workflow) : List String :=
  (w.name ++ " v" ++ w.version) :: Outline.members "" false w.steps

/-- The outline of a workflow. -/
def Workflow.outline (w : Workflow) : String := String.join (w.outlineLines.map (· ++ "\n"))

end Stepflow
