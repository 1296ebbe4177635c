import Stepflow.Checkpoint.Basic
import Stepflow.Context
import Stepflow.Files.Tree
import Stepflow.Registry.Basic
import Stepflow.Result.Basic
import Stepflow.Script.Basic
import Stepflow.Step.Basic

/-!
# What a run asks of its surroundings

A run is a script. `Request` lists all that it asks for: events are told, components are called, the
clocks are read, checkpoints are saved and found again. Nothing else that a run does depends on the
world around it.

Every request comes with its site, and events of steps with the step that they are about, so that what
happens in a run can be told apart by where it happens. The surroundings need not look at either.

A component is called in two requests, with room for others in between. The first hands over the
input; its answer says how often the component gives way before it is finished. The second collects
the reply.
-/

/-!
## Events

What a run tells while it is under way. The events of a workflow lie between its start and its
completion, those of a step between the start and the completion of the step; a step that is skipped
by its condition, or cancelled before it did anything, is only completed.
-/

namespace Stepflow

/-- Something that happened in a run. -/
inductive Event where
  /-- A workflow has started; so many of its steps were replayed. -/
  | workflowStarted (workflow runId : String) (total replayed : Nat)
  /-- A step has started. -/
  | stepStarted (workflow step : String) (type : StepType)
  /-- A step has come to a result. -/
  | stepCompleted (workflow : String) (result : StepResult)
  /-- A checkpoint was saved after a step. -/
  | checkpointSaved (workflow runId step checkpoint : String)
  /-- The compensation of a step has started. -/
  | rollbackStarted (workflow step action : String)
  /-- The compensation of a step has ended, and failed if there is an error. -/
  | rollbackCompleted (workflow step : String) (error : Option String)
  /-- A workflow has come to its end. -/
  | workflowCompleted (workflow runId : String) (success cancelled : Bool) (totalMs : Nat)

/-- The object of an event: its name, then what it says. -/
def Event.toValue : Event → Value
  | .workflowStarted workflow runId total replayed =>
    .obj [("event", .str "workflow_started"), ("workflow", .str workflow),
      ("workflow_id", .str runId), ("total_steps", .int total), ("replayed", .int replayed)]
  | .stepStarted workflow step type =>
    .obj [("event", .str "step_started"), ("workflow", .str workflow), ("step", .str step),
      ("step_type", .str type.word)]
  | .stepCompleted workflow result =>
    .obj [("event", .str "step_completed"), ("workflow", .str workflow), ("result", result.toValue)]
  | .checkpointSaved workflow runId step checkpoint =>
    .obj [("event", .str "checkpoint_saved"), ("workflow", .str workflow),
      ("workflow_id", .str runId), ("step", .str step), ("checkpoint_id", .str checkpoint)]
  | .rollbackStarted workflow step action =>
    .obj [("event", .str "rollback_started"), ("workflow", .str workflow), ("step", .str step),
      ("action", .str action)]
  | .rollbackCompleted workflow step error =>
    .obj ([("event", .str "rollback_completed"), ("workflow", .str workflow), ("step", .str step),
      ("success", .bool error.isNone)] ++ fieldOf "error" .str error)
  | .workflowCompleted workflow runId success cancelled totalMs =>
    .obj [("event", .str "workflow_completed"), ("workflow", .str workflow),
      ("workflow_id", .str runId), ("success", .bool success), ("cancelled", .bool cancelled),
      ("total_ms", .int totalMs)]

end Stepflow

/-! ## Requests -/

/-!
## Sites

A run is made of layers: the steps that the workflow declares, the tries of a step, what is run in a
try or after it, and the runs of workflows inside steps. A site names the layers around a point of a
run. No two parts of one run have the same site: tries, fixes, members and declared steps are numbered,
and a try has at most one chosen option and at most one run of a workflow.
-/

namespace Stepflow

/-- One layer of a run. -/
inductive Layer where
  /-- The step that the workflow declares at an index. -/
  | declared (index : Nat)
  /-- A try of a step. -/
  | attempt (number : Nat)
  /-- A fix of a validation. -/
  | fix (number : Nat)
  /-- The chosen option of a branch. -/
  | option
  /-- The member of a group at an index. -/
  | member (index : Nat)
  /-- The run of the workflow that a step runs. -/
  | run
  /-- The fallback of a step. -/
  | fallback
  deriving DecidableEq, Repr

/-- The layers around a point of a run, the outermost first. -/
abbrev Site := List Layer

/-- What a component is given. -/
inductive Input where
  /-- The arguments of a callable. -/
  | arguments (args : List Value) (kwargs : Fields)
  /-- The context of an agent or a generator. -/
  | context (v : Value)
  /-- The inline context that a context builder starts from, and what it may look into. -/
  | seed (fields : Fields) (c : Context)

/-- What a component comes back with. -/
structure Reply where
  /-- Whether it succeeded; only agents say no. -/
  success : Bool := true
  /-- What it produced. -/
  output : Value := .null
  /-- What it complains of. -/
  errors : List String := []

/-- A component at work. -/
structure Call where
  /-- What its reply is collected with. -/
  ticket : Nat
  /-- How often it gives way. -/
  pauses : Nat

/-- What a run asks for, with components of the type `κ`. -/
inductive Request (κ : Type) where
  /-- Tells an event. -/
  | tell (e : Event)
  /-- Asks whether all is cancelled. -/
  | isCancelled
  /-- Reads the clock that runs are timed by, in nanoseconds. -/
  | now
  /-- Reads the time of day. -/
  | today
  /-- Draws a number between zero and one. -/
  | jitter
  /-- Draws an identifier. -/
  | freshId
  /-- Begins the call of the component of a name. -/
  | begin (space : Namespace) (name : String) (component : κ) (input : Input)
  /-- Collects the reply of a component, or why it failed. -/
  | collect (ticket : Nat)
  /-- Records a name whose refusal is put off. -/
  | defer (e : RegistryError)
  /-- Saves a checkpoint of a run. -/
  | save (run : String) (c : Checkpoint)
  /-- Asks for the newest checkpoint of a run. -/
  | latest (run : String)
  /-- Removes all checkpoints of a run. -/
  | clear (run : String)

/-- The type of the answer to each request. -/
abbrev Request.Answer {κ : Type} : Request κ → Type
  | .tell _ => Unit
  | .isCancelled => Bool
  | .now => Nat
  | .today => Instant
  | .jitter => Float
  | .freshId => String
  | .begin .. => Call
  | .collect _ => Except String Reply
  | .defer _ => Unit
  | .save .. => Except CheckpointError Unit
  | .latest _ => Except CheckpointError (Option Checkpoint)
  | .clear _ => Except CheckpointError Unit

/-- A request, and where in a run it is made. -/
structure Inquiry (κ : Type) where
  /-- The layers around it. -/
  site : Site := []
  /-- The step that it is about, if it tells an event of a step. -/
  step : Option Step := none
  /-- The request. -/
  request : Request κ

/-- The type of the answer to a request, wherever it is made. -/
abbrev Inquiry.Answer {κ : Type} (q : Inquiry κ) : Type := q.request.Answer

/-- A script that makes the requests of runs. -/
abbrev RunScript (κ : Type) (α : Type) : Type := Script (Inquiry κ) Inquiry.Answer α

namespace RunScript

variable {κ : Type} {α : Type}

/-- Makes a request, at no site yet. -/
def request (r : Request κ) : RunScript κ r.Answer :=
  Script.request ({ request := r } : Inquiry κ)

/-- A script inside one layer more. -/
def under (layer : Layer) : RunScript κ α → RunScript κ α
  | .done a => .done a
  | .ask q next =>
    .ask { site := layer :: q.site, step := q.step, request := q.request } fun x =>
      under layer (next x)
  | .poll deadline next => .poll deadline fun x => under layer (next x)
  | .pause next => .pause (under layer next)
  | .sleep deadline next => .sleep deadline fun x => under layer (next x)

/-- Tells an event. -/
def tell (e : Event) : RunScript κ Unit := request (.tell e)

/-- Tells an event of a step. -/
def tellOf (s : Step) (e : Event) : RunScript κ Unit :=
  Script.request ({ step := some s, request := .tell e } : Inquiry κ)

/-- Asks whether all is cancelled. -/
def isCancelled : RunScript κ Bool := request .isCancelled

/-- Reads the clock that runs are timed by. -/
def now : RunScript κ Nat := request .now

/-- The milliseconds that have passed since a reading of the clock. -/
def millisecondsSince (start : Nat) : RunScript κ Nat := do
  return (← now) / 1000000 - start / 1000000

/-- Calls a component: it begins, gives way as often as it says, and replies. -/
def call (space : Namespace) (name : String) (component : κ) (input : Input) :
    RunScript κ (Except String Reply) := do
  let call : Call ← request (.begin space name component input)
  Script.pauses call.pauses
  request (.collect call.ticket)

end RunScript

/-!
## Performances

What a component does at one call, decided when the call begins: how often it gives way, whether it
cancels all, what it comes back with, and which files it leaves. Whoever answers the requests of a
run keeps the performance under the ticket of the call.
-/

/-- What a component is given, as a value. -/
def Input.toValue : Input → Value
  | .arguments args kwargs => .obj [("args", .arr args), ("kwargs", .obj kwargs)]
  | .context v => v
  | .seed fields c => .obj [("ctx", c.toValue), ("seed", .obj fields)]

/-- What a component does when it is called. -/
structure Performance where
  /-- How often it gives way first. -/
  pauses : Nat := 0
  /-- Whether it then cancels all. -/
  cancels : Bool := false
  /-- What it comes back with in the end. -/
  reply : Except String Reply
  /-- The files after it, if it changes them. -/
  files : Option Files := none

end Stepflow
