import Stepflow.Files.Follow
import Stepflow.Retry
import Stepflow.Workflow.Codec

/-!
# Configuration

A project may configure how its workflows are run: where checkpoints are kept, whether those of a run
that succeeded are removed, how long a retry may wait at most, and values that expressions refer to.
The configuration is YAML text; what it does not say has a default, and so has a blank text.
-/

namespace Stepflow

/-- How the workflows of a project are run. -/
structure Config where
  /-- The path of the root of the checkpoints. -/
  checkpointDir : String := ".maverick/checkpoints"
  /-- Whether the checkpoints of a run are removed once it has succeeded. -/
  clearOnSuccess : Bool := true
  /-- The longest delay before a retry, in seconds. -/
  maxRetryDelay : Float := 60.0
  /-- The values that expressions refer to. -/
  values : Fields := []

/-- The ways in which reading a configuration can fail. -/
inductive ConfigError where
  /-- Something stands in the way on the disk. -/
  | blocked (path : String) (obstacle : Obstacle)
  /-- The text holds no configuration. -/
  | unreadable (path : String)

/-- The wording of a failure. -/
def ConfigError.message : ConfigError → String
  | .blocked path obstacle => "failed to read config " ++ path ++ ": " ++ obstacle.message
  | .unreadable path => "failed to parse config " ++ path

namespace Config

/-- The path of the configuration of a project. -/
def fileName : String := ".maverick/config.yaml"

/-- The variable of the environment that says where checkpoints are kept. -/
def checkpointDirVariable : String := "MAVERICK_CHECKPOINT_DIR"

/-- Reads a configuration. -/
def ofItem? (i : Item) : Option Config := do
  let found ← i.record?
    ["checkpoint_dir", "clear_checkpoints_on_success", "max_retry_delay_secs", "values"]
  let initial : Config := {}
  let checkpointDir ← Item.field? found "checkpoint_dir" initial.checkpointDir Item.text?
  let clearOnSuccess ←
    Item.field? found "clear_checkpoints_on_success" initial.clearOnSuccess Item.bool?
  let maxRetryDelay ← Item.field? found "max_retry_delay_secs" initial.maxRetryDelay Item.float?
  let values ← Item.field? found "values" initial.values (Item.table? Item.value?)
  some { checkpointDir, clearOnSuccess, maxRetryDelay, values }

/-- The parts of a text that the reader of configurations looks at. -/
def reach : Yaml.Reach :=
  .only [("checkpoint_dir", .all), ("clear_checkpoints_on_success", .all),
    ("max_retry_delay_secs", .all), ("values", .all)]

/-- Reads the text of a configuration. -/
def ofText? (text : String) : Option Config :=
  if Text.trim text.toList = [] then some {} else (Yaml.toItem? reach text.toList).bind ofItem?

/-- The configuration in a file, which may be missing. -/
def load (t : Files) (workingDirectory : List String) (path : String) :
    Except ConfigError Config :=
  match t.readTextAt workingDirectory path with
  | .error .missing => .ok {}
  | .error o => .error (.blocked path o)
  | .ok text =>
    match ofText? text with
    | some c => .ok c
    | none => .error (.unreadable path)

/-- The configuration with what the environment says in place of its own: where checkpoints are
kept, unless the variable is empty. -/
def override (c : Config) (environment : String → Option String) : Config :=
  match environment checkpointDirVariable with
  | none => c
  | some dir => if dir = "" then c else { c with checkpointDir := dir }

/-- The configuration of a project: from its file and the environment, and with the path of the
checkpoints below the project's unless it is absolute. -/
def forProject (t : Files) (workingDirectory : List String) (environment : String → Option String)
    (root : String) : Except ConfigError Config :=
  (load t workingDirectory (FilePath.join root fileName)).map fun c =>
    let c := c.override environment
    { c with checkpointDir := FilePath.join root c.checkpointDir }

/-- The longest delay before a retry, in nanoseconds: a number of seconds that is not finite or below
zero counts as the cap, and so does a greater one. -/
def retryCap (c : Config) : Nat :=
  if c.maxRetryDelay.isNaN || c.maxRetryDelay.isInf then Retry.cap
  else
    let seconds := (Decimal.Binary.ofFloat c.maxRetryDelay).toRat
    if seconds < 0 then Retry.cap else Retry.nanosOf (Retry.lesser seconds Retry.capSeconds)

/-- The object of a configuration. -/
def toValue (c : Config) : Value :=
  .obj [("checkpoint_dir", .str c.checkpointDir),
    ("clear_checkpoints_on_success", .bool c.clearOnSuccess),
    ("max_retry_delay_secs", .float c.maxRetryDelay), ("values", .obj c.values)]

end Config

end Stepflow
