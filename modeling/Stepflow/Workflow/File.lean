import Stepflow.Files.Follow
import Stepflow.Json.Printer
import Stepflow.Validation.Load
import Stepflow.Workflow.Codec
import Stepflow.Yaml.Printer

/-!
# Files of workflows

A workflow is loaded from a file, and written to one: as JSON text if the name of the file says so,
and as YAML text otherwise.
-/

/-!
## The text of a workflow

A workflow is written as YAML text or as JSON text with one member to a line; both write the same
object.
-/

namespace Stepflow.Workflow

/-- The YAML text of a workflow. -/
def yaml (w : Workflow) : String := w.toValue.yaml

/-- The JSON text of a workflow. -/
def json (w : Workflow) : String := w.toValue.pretty

end Stepflow.Workflow

namespace Stepflow

/-- Loads the workflow in a file. -/
def Document.loadFile {κ : Type} (r : Registry κ) (t : Files) (workingDirectory : List String)
    (path : String) : Except LoadError Workflow :=
  match t.readTextAt workingDirectory path with
  | .error o => .error (.unreadable path o.message)
  | .ok text => Document.load r text

namespace Workflow

/-- The text of a workflow for a file of this path. -/
def textFor (w : Workflow) (path : String) : String :=
  if FilePath.hasExtension path "json" then w.json else w.yaml

/-- Writes a workflow to a file. -/
def writeFile (w : Workflow) (t : Files) (workingDirectory : List String) (path : String) :
    Except Obstacle Files :=
  t.writeFileAt workingDirectory path (.text (w.textFor path))

end Workflow

end Stepflow
