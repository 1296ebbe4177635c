import Stepflow.Step.Basic

/-!
# Building steps

Steps are put together from a start that names the kind (`Step.call`, `Step.validate`, …) and
functions that each add one thing. A function that speaks of one kind leaves steps of other kinds as
they are.
-/

namespace Stepflow.Step

/-- A step that calls a callable. -/
def call (name action : String) : Step := { name, kind := .call action [] [] }

/-- A step that executes an agent. -/
def agent (name agent : String) : Step := { name, kind := .agent agent [] none }

/-- A step that has a generator produce text. -/
def generate (name generator : String) : Step := { name, kind := .generate generator [] none }

/-- A step that runs validation stages. -/
def validate (name : String) (stages : List String) : Step :=
  { name, kind := .validate stages defaultFixAttempts none }

/-- A step that runs a workflow. -/
def subworkflow (name workflow : String) : Step := { name, kind := .subworkflow workflow [] }

/-- A step without options yet. -/
def branch (name : String) : Step := { name, kind := .branch [] }

/-- A group without members yet. -/
def parallel (name : String) : Step := { name, kind := .parallel [] }

/-- Changes what a step does. -/
def mapKind (s : Step) (f : StepKind Step → StepKind Step) : Step := { s with kind := f s.kind }

/-- Appends a positional argument of a call. -/
def withArg (s : Step) (v : Value) : Step :=
  s.mapKind fun
    | .call a args kwargs => .call a (args ++ [v]) kwargs
    | k => k

/-- Sets a keyword argument of a call. -/
def withKwarg (s : Step) (key : String) (v : Value) : Step :=
  s.mapKind fun
    | .call a args kwargs => .call a args (kwargs.insert key v)
    | k => k

/-- Sets an entry of the context of an agent or a generator. -/
def withContext (s : Step) (key : String) (v : Value) : Step :=
  s.mapKind fun
    | .agent a context b => .agent a (context.insert key v) b
    | .generate g context b => .generate g (context.insert key v) b
    | k => k

/-- Names the context builder of an agent or a generator. -/
def withBuilder (s : Step) (builder : String) : Step :=
  s.mapKind fun
    | .agent a context _ => .agent a context (some builder)
    | .generate g context _ => .generate g context (some builder)
    | k => k

/-- Sets the number of fix attempts of a validation. -/
def withFixAttempts (s : Step) (retry : Nat) : Step :=
  s.mapKind fun
    | .validate stages _ fix => .validate stages retry fix
    | k => k

/-- Sets the fix of a validation. -/
def withFix (s : Step) (fix : Step) : Step :=
  s.mapKind fun
    | .validate stages retry _ => .validate stages retry (some fix)
    | k => k

/-- Sets an input of a workflow that is run inside this one. -/
def withInput (s : Step) (key : String) (v : Value) : Step :=
  s.mapKind fun
    | .subworkflow w inputs => .subworkflow w (inputs.insert key v)
    | k => k

/-- Appends an option of a branch. -/
def withOption (s : Step) (condition : Expression) (step : Step) : Step :=
  s.mapKind fun
    | .branch options => .branch (options ++ [⟨condition, step⟩])
    | k => k

/-- Appends a member of a group. -/
def withMember (s : Step) (member : Step) : Step :=
  s.mapKind fun
    | .parallel members => .parallel (members ++ [member])
    | k => k

end Stepflow.Step
