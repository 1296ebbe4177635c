import Stepflow.Expression.Evaluation
import Stepflow.Run.Effects

/-!
# Calls

What the steps do that call something by its name: a component, or another workflow.
-/

/-!
## Calling components

How the steps that call components do so. The component is looked up first, then the references in
what it is given are resolved, and then it is called. An unknown component is an error of the step if
the registry is strict; if it is lenient, the error is recorded and a stand-in is called, which fails.
-/

namespace Stepflow

/-- A part of a step that can fail. -/
abbrev StepScript (κ : Type) (α : Type) : Type := ExceptT StepError (RunScript κ) α

/-- Why a stage did not pass, if it did not: it failed, it said false, or its object says so. -/
def stageFailure? : Except String Reply → Option String
  | .error message => some message
  | .ok reply =>
    match reply.output with
    | .bool false => some "stage returned false"
    | .obj fields =>
      match Table.get? fields "passed" with
      | some (.bool false) =>
        let said := (Table.get? fields "error").orElse fun _ => Table.get? fields "message"
        some ((said.bind Value.str?).getD "stage reported failure")
      | _ => none
    | _ => none

/-- A stage of a validation that did not pass. -/
structure StageFailure where
  /-- The stage. -/
  stage : String
  /-- Why it did not pass. -/
  reason : String

namespace Runner

variable {κ : Type}

/-- Goes on with a resolved reference, or fails. -/
def resolved {α : Type} (x : Except Expression.Failure α) : StepScript κ α :=
  ExceptT.mk (Script.done (x.mapError StepError.reference))

/-- Looks a component up; a stand-in is `none`. -/
def find (r : Runner κ) (space : Namespace) (name : String) : StepScript κ (Option κ) :=
  ExceptT.mk <| match r.registry.resolve space name with
    | .found component => .done (.ok (some component))
    | .standIn e => (RunScript.request (.defer e)).andThen fun _ => .done (.ok none)
    | .missing e => .done (.error (.unregistered e))

/-- Calls what was looked up. -/
def call (space : Namespace) (name : String) (component : Option κ) (input : Input) :
    RunScript κ (Except String Reply) :=
  match component with
  | some component => RunScript.call space name component input
  | none => .done (.error (Registry.standInMessage space name))

/-- Calls what was looked up, and fails if that fails. -/
def reply (space : Namespace) (name : String) (component : Option κ) (input : Input) :
    StepScript κ Reply :=
  ExceptT.mk ((call space name component input).andThen fun x =>
    .done (x.mapError (StepError.component name)))

/-- Calls a callable with resolved arguments. -/
def callAction (r : Runner κ) (c : Context) (action : String) (args : List Value)
    (kwargs : Fields) : StepScript κ Value := do
  let callable ← r.find .callables action
  let args ← resolved (c.resolveItems args)
  let kwargs ← resolved (c.resolveFields kwargs)
  return (← reply .callables action callable (.arguments args kwargs)).output

/-- The context of an agent or a generator: the resolved inline one, or what the context builder
makes of it. -/
def buildContext (r : Runner κ) (c : Context) (inline : Fields) (builder : Option String) :
    StepScript κ Value := do
  let seed ← resolved (c.resolveFields inline)
  match builder with
  | none => return .obj seed
  | some name =>
    let component ← r.find .contextBuilders name
    return (← reply .contextBuilders name component (.seed seed c)).output

/-- Executes an agent. -/
def runAgent (r : Runner κ) (c : Context) (agent : String) (inline : Fields)
    (builder : Option String) : StepScript κ Value := do
  let component ← r.find .agents agent
  let context ← r.buildContext c inline builder
  let reply ← reply .agents agent component (.context context)
  if reply.success then return reply.output
  else throw (.agent agent reply.errors)

/-- Has a generator produce text. -/
def runGenerator (r : Runner κ) (c : Context) (generator : String) (inline : Fields)
    (builder : Option String) : StepScript κ Value := do
  let component ← r.find .generators generator
  let context ← r.buildContext c inline builder
  return .str (← reply .generators generator component (.context context)).output.inText

/-- Calls stages in order, without arguments, up to the first that does not pass. -/
def runStages (r : Runner κ) : List String → StepScript κ (Option StageFailure)
  | [] => return none
  | stage :: rest => do
    let callable ← r.find .callables stage
    let x ← ExceptT.lift (call .callables stage callable (.arguments [] []))
    match stageFailure? x with
    | some reason => return some ⟨stage, reason⟩
    | none => r.runStages rest

/-- Calls the callable that compensates a step; gives why it failed, if it did. -/
def compensate (r : Runner κ) (owed : Compensation) : RunScript κ (Option String) := do
  let x ← ((do
    let callable ← r.find .callables owed.action
    ExceptT.lift (call .callables owed.action callable
      (.arguments [] [("output", owed.output)]))) : StepScript κ (Except String Reply)).run
  match x with
  | .error e => return some e.message
  | .ok (.error message) => return some message
  | .ok (.ok _) => return none

end Runner

/-!
## Workflows inside steps

A step may run a registered workflow. That run has inputs and step outputs of its own, so the outputs
of its steps do not reach the workflow around it; what it owes in compensations does. A workflow that
is under way already is not run again inside itself.
-/

/-- A run that has come to its end. -/
structure Execution where
  /-- The result. -/
  result : RunResult
  /-- The compensations still owed if a run around it fails, in the order of completion. -/
  compensations : List Compensation
  /-- The state that the run ended in. -/
  state : RunState

/-- How a workflow is run with resolved inputs inside a scope. -/
abbrev Execute (κ : Type) : Type :=
  Workflow → Fields → Scope → RunScript κ (Except Refusal Execution)

/-- What a step makes of the run of its workflow. -/
def Execution.attempt (x : Execution) (workflow : String) : Attempt :=
  { outcome :=
      if x.result.success then .ok x.result.output
      else if x.result.cancelled then .error .cancelled
      else .error (.nested workflow x.result.error)
    children := x.result.steps
    effects := { compensations := x.compensations } }

namespace Runner

variable {κ : Type}

/-- Looks a workflow up; a lenient registry records an unknown name and gives one without steps. -/
def findWorkflow (r : Runner κ) (name : String) : StepScript κ Workflow :=
  ExceptT.mk <| match r.registry.resolveWorkflow name with
    | .found w => .done (.ok w)
    | .standIn e =>
      (RunScript.request (.defer e)).andThen fun _ => .done (.ok (Registry.placeholder name))
    | .missing e => .done (.error (.unregistered e))

/-- The workflow that a step runs and its inputs, unless it cannot be run. -/
def prepare (r : Runner κ) (c : Context) (scope : Scope) (workflow : String) (inputs : Fields) :
    StepScript κ (Workflow × Fields) := do
  let w ← r.findWorkflow workflow
  if scope.stack.contains w.name then throw (.cycle (scope.stack ++ [w.name]))
  let inputs ← resolved (c.resolveFields inputs)
  match w.resolveInputs inputs with
  | .error e => throw (.refused w.name (.inputs e))
  | .ok inputs => return (w, inputs)

/-- **Runs a workflow inside a step.** -/
def runNested (r : Runner κ) (execute : Execute κ) (c : Context) (scope : Scope) (step : String)
    (workflow : String) (inputs : Fields) : RunScript κ Attempt :=
  (r.prepare c scope workflow inputs).run.andThen fun
    | .error e => .done (.failed e)
    | .ok (w, inputs) =>
      ((execute w inputs (scope.nested w.name step)).under .run).andThen fun
        | .error e => .done (.failed (.refused w.name e))
        | .ok x => .done (x.attempt w.name)

end Runner

end Stepflow
