import Stepflow.Checkpoint.Store
import Stepflow.CommandLine.Views
import Stepflow.Run.Workflow

/-!
# Running workflows from the command line

A run is planned before it is begun: the workflow is loaded, its inputs are read from words, and the
configuration says where checkpoints are kept. The plan is a script for the surroundings to follow;
while it is followed, its events are told as lines, and at its end the result is.
-/

namespace Stepflow.CommandLine

/-! ### Inputs -/

/-- Reads one input: a name, an equals sign, and a word that is read as a value of the declared type.
Inputs that are not declared are texts. -/
def inputOf (w : Workflow) (pair : String) : Except (List String) (String × Value) :=
  match Text.cutAt? ['='] pair.toList with
  | none => .error ["input '" ++ pair ++ "' is not of the form key=value"]
  | some (key, word) =>
    let (key, word) := (String.ofList key, String.ofList word)
    match w.inputs.get? key with
    | none => .ok (key, .str word)
    | some d =>
      match d.type.parse? word with
      | some v => .ok (key, v)
      | none =>
        .error ["input '" ++ key ++ "' expects a " ++ d.type.word ++ " value, got '" ++ word ++ "'"]

/-- Reads inputs; of two of one name the later one counts. -/
def inputsOf (w : Workflow) (pairs : List String) : Except (List String) Fields :=
  pairs.foldlM (fun inputs pair => (inputOf w pair).map fun (k, v) => inputs.insert k v) []

/-! ### Progress -/

/-- The word for an ending in a line. -/
def mark : StepStatus → String
  | .passed => "ok"
  | .fixed => "fixed"
  | .skipped => "skip"
  | .failed => "FAIL"
  | .cancelled => "cancelled"

/-- An event as lines of text. -/
def progress : Event → String
  | .workflowStarted workflow runId _ replayed =>
    line ("workflow " ++ workflow ++ " (" ++ runId ++ ")") ++
      (if replayed = 0 then ""
        else line ("  restored " ++ toString replayed ++ " step(s) from checkpoint"))
  | .stepStarted _ step type => line ("  > " ++ step ++ " [" ++ type.word ++ "]")
  | .stepCompleted _ r =>
    line ("  " ++ mark r.status ++ " " ++ r.name ++ " (" ++ toString r.durationMs ++ " ms)" ++
      match r.error with
      | some e => ": " ++ e
      | none => "")
  | .checkpointSaved _ _ step _ => line ("  checkpoint saved after " ++ step)
  | .rollbackStarted _ step action => line ("  rolling back " ++ step ++ " with " ++ action)
  | .rollbackCompleted _ _ none => ""
  | .rollbackCompleted _ step (some e) => line ("  rollback of " ++ step ++ " failed: " ++ e)
  | .workflowCompleted .. => ""

/-- What an event writes to the output. -/
def told (o : Options) (e : Event) : String := if o.json then line e.toValue.compact else progress e

/-! ### Results -/

/-- The end of a run, as lines of text. -/
def conclusion (r : RunResult) : String :=
  match r.state with
  | .completed => line ("completed in " ++ toString r.totalMs ++ " ms")
  | .cancelled => line ("cancelled; resume with --resume " ++ r.runId)
  | _ =>
    line ("failed: " ++ r.error.getD "unknown error") ++ line ("resume with --resume " ++ r.runId)

/-- The result of a dry run, as lines of text. -/
def outlook (r : RunResult) : String :=
  String.join (r.steps.map fun s => line ("  would run " ++ s.name ++ " [" ++ s.type.word ++ "]"))

/-- The result of a run. -/
def resultText (o : Options) (dry : Bool) (r : RunResult) : String :=
  if o.json then line r.toValue.pretty else if dry then outlook r else conclusion r

/-- The causes of the refusal of a run. -/
def refusalCauses (e : Refusal) : List String :=
  match e with
  | .checkpoint (.blocked _ o) => [e.message, o.message]
  | _ => [e.message]

/-- The causes of a failure to read the configuration. -/
def configCauses (e : ConfigError) : List String :=
  match e with
  | .blocked _ o => [e.message, o.message]
  | .unreadable _ => [e.message]

/-! ### Plans -/

/-- A run that is planned. -/
structure Plan where
  /-- What runs it. -/
  runner : Runner Builtin
  /-- Where its checkpoints are kept. -/
  store : FileStore
  /-- The workflow. -/
  workflow : Workflow
  /-- Its inputs. -/
  inputs : Fields
  /-- Whether it is only for show. -/
  dryRun : Bool
  /-- The run to resume, if one is to be resumed. -/
  resume : Option String

/-- Plans a run. -/
def Session.plan (s : Session) (target : String) (pairs : List String) (dryRun : Bool)
    (resume : Option String) : Except (List String) Plan := do
  let registry ← s.registry
  let workflow ← s.load target registry
  let inputs ← inputsOf workflow pairs
  let e := s.environment
  let config ← (Config.forProject s.files e.place e.valueOf
    (Session.projectRoot s.options e)).mapError configCauses
  return {
    runner := { registry, config, hasStore := true }
    store := ⟨config.checkpointDir, e.names config.checkpointDir⟩
    workflow, inputs, dryRun, resume }

/-- The script of a plan that is not only for show. -/
def Plan.script (p : Plan) : RunScript Builtin (Except Refusal Execution) :=
  match p.resume with
  | some id => p.runner.resume p.workflow id p.inputs
  | none => p.runner.runFresh p.workflow p.inputs

/-- What is left to do for a command. -/
inductive Task where
  /-- Nothing: it is done. -/
  | finished (r : Report)
  /-- A run is to be followed. -/
  | pending (s : Session) (p : Plan)

/-- The report of a dry run. -/
def Session.rehearse (s : Session) (p : Plan) : Report :=
  match Runner.dryRun p.workflow p.inputs with
  | .error e => s.failure (refusalCauses e)
  | .ok r => s.report 0 (resultText s.options true r)

/-- **What is left to do** once a command has looked around. -/
def Session.task (s : Session) : Command → Task
  | .list => .finished (s.report 0 s.listing)
  | .detail target => .finished (s.showing target s.details)
  | .validate file => .finished (s.validation file)
  | .viz target drawing => .finished (s.showing target (Session.drawn drawing))
  | .run target pairs dryRun resume =>
    match s.plan target pairs dryRun resume with
    | .error causes => .finished (s.failure causes)
    | .ok p => if p.dryRun then .finished (s.rehearse p) else .pending s p

/-- What is written at the end of a run, after its events. -/
def Session.ended (s : Session) (result : Except Refusal Execution) : Report :=
  match result with
  | .error e => Report.failed (refusalCauses e)
  | .ok x =>
    { status := if x.result.success then 0 else 1, out := resultText s.options false x.result }

end Stepflow.CommandLine
