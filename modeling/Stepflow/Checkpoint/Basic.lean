import Stepflow.Digest.Sha256
import Stepflow.Files.Tree
import Stepflow.Result.Basic
import Stepflow.Time.Instant

/-!
# Checkpoints

A checkpoint holds what the steps of a run have come to so far, and a fingerprint of the inputs with
which the run was started. Checkpoints of one run are ordered by the time at which they were saved,
and those of one time by their identifiers.
-/

namespace Stepflow

/-- What the first steps of a run have come to. -/
structure Checkpoint where
  /-- The identifier of the checkpoint. -/
  id : String
  /-- The name of the workflow. -/
  workflow : String
  /-- The fingerprint of the inputs. -/
  inputsHash : String
  /-- What the steps came to, in order. -/
  steps : List StepResult
  /-- When the checkpoint was saved. -/
  savedAt : Instant

/-- The fingerprint of inputs: the digest of their compact JSON text. -/
def inputsHash (inputs : Fields) : String := Digest.hexDigest (Value.obj inputs).compact

namespace Checkpoint

/-- Whether a checkpoint is older than another, or as old and not behind it by its identifier. -/
def notAfter (a b : Checkpoint) : Bool :=
  if a.savedAt = b.savedAt then a.id ≤ b.id else a.savedAt.le b.savedAt

/-- Checkpoints from the oldest to the newest. -/
def oldestFirst (cs : List Checkpoint) : List Checkpoint := cs.mergeSort notAfter

/-- The newest of a list of checkpoints; of equal ones the first. -/
def newest? (cs : List Checkpoint) : Option Checkpoint :=
  (cs.mergeSort fun a b => notAfter b a).head?

/-- The object of a checkpoint. -/
def toValue (c : Checkpoint) : Value :=
  .obj [("checkpoint_id", .str c.id), ("workflow_name", .str c.workflow),
    ("inputs_hash", .str c.inputsHash), ("step_results", .arr (StepResult.toValues c.steps)),
    ("saved_at", .str c.savedAt.text)]

/-- Reads a checkpoint. -/
def ofItem? (i : Item) : Option Checkpoint := do
  let found ← i.record? ["checkpoint_id", "workflow_name", "inputs_hash", "step_results", "saved_at"]
  let id ← Item.required? found "checkpoint_id" Item.text?
  let workflow ← Item.required? found "workflow_name" Item.text?
  let inputsHash ← Item.required? found "inputs_hash" Item.text?
  let steps ← Item.required? found "step_results" (Item.list? StepResult.ofItem?)
  let savedAt ← Item.required? found "saved_at" fun i => i.text?.bind Instant.read?
  some { id, workflow, inputsHash, steps, savedAt }

/-- The JSON text of a checkpoint. -/
def text (c : Checkpoint) : String := c.toValue.pretty

/-- Reads the JSON text of a checkpoint. -/
def ofText? (text : String) : Option Checkpoint :=
  ((Json.read? text.toList).map (Item.ofJson Json.maxDepth)).bind ofItem?

end Checkpoint

/-- The ways in which keeping checkpoints can fail. -/
inductive CheckpointError where
  /-- There is no checkpoint of the run, or none with the identifier. -/
  | notFound (run : String) (id : Option String)
  /-- The run was started with other inputs. -/
  | inputMismatch (run expected actual : String)
  /-- An identifier is no plain name. -/
  | invalidId (id : String)
  /-- Something stands in the way on the disk. -/
  | blocked (path : String) (obstacle : Obstacle)
  /-- A file holds no checkpoint. -/
  | unreadable

/-- The wording of a failure. -/
def CheckpointError.message : CheckpointError → String
  | .notFound run id =>
    "no checkpoint found for run '" ++ run ++ "'" ++
      (id.map fun id => " with id '" ++ id ++ "'").getD ""
  | .inputMismatch run expected actual =>
    "inputs for run '" ++ run ++ "' differ from the checkpointed inputs (expected hash " ++
      expected ++ ", got " ++ actual ++ ")"
  | .invalidId id => "invalid checkpoint identifier '" ++ id ++ "'"
  | .blocked path obstacle => "checkpoint I/O error at " ++ path ++ ": " ++ obstacle.message
  | .unreadable => "checkpoint serialization error"

/-- Whether a character may stand in an identifier. -/
def Checkpoint.isIdChar (c : Char) : Bool :=
  ('a' ≤ c && c ≤ 'z') || ('A' ≤ c && c ≤ 'Z') || Text.isDigit c || c = '-' || c = '_' || c = '.'

/-- Whether an identifier is a plain name of a file: letters, digits and a few signs, but not the
name of the directory itself or of the one above. -/
def Checkpoint.isPlainId (id : String) : Bool :=
  id ≠ "" && id ≠ "." && id ≠ ".." && id.toList.all isIdChar

/-- Refuses an identifier that is no plain name. -/
def Checkpoint.checkId (id : String) : Except CheckpointError Unit :=
  if isPlainId id then .ok () else .error (.invalidId id)

end Stepflow
