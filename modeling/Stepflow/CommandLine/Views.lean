import Stepflow.Builtin
import Stepflow.CommandLine.Arguments
import Stepflow.Config
import Stepflow.Diagram.Flowchart
import Stepflow.Diagram.Outline
import Stepflow.Discovery
import Stepflow.Workflow.File

/-!
# Views of workflows

The commands that only look: a list of the workflows that are found, one workflow in detail, what is
wrong with a document, and drawings. Each answers with text or with JSON text, as the options say.
-/

/-!
## Sessions

What every command starts from: the root of the project, the workflows that are found, and the
components that they can refer to. A workflow is named by the path of its file or, if there is no such
file, by its name among those that are found.
-/

namespace Stepflow.CommandLine

/-- What the program leaves behind. -/
structure Report where
  /-- The number with which it ends. -/
  status : Nat := 0
  /-- What it writes to its output. -/
  out : String := ""
  /-- What it writes to its errors. -/
  errors : String := ""

/-- A line of text. -/
def line (text : String) : String := text ++ "\n"

/-- The report of a failure, told from the outermost cause to the innermost. -/
def Report.failed (causes : List String) : Report :=
  { status := 1, errors := line ("error: " ++ ": ".intercalate causes) }

/-- The name of the program. -/
def programName : String := "maverick-workflow"

/-- What a command knows when it starts. -/
structure Session where
  /-- What holds for every command. -/
  options : Options
  /-- The environment. -/
  environment : Environment
  /-- The files. -/
  files : Files
  /-- What was found. -/
  found : Discovery.Outcome

namespace Session

/-- The root of a project: as the options say, and else the working directory. -/
def projectRoot (o : Options) (e : Environment) : String := o.project.getD e.directory

/-- The directories that are searched for workflows. -/
def directories (o : Options) (e : Environment) : List Discovery.Directory :=
  o.builtinDir.toList.map (⟨.builtin, ·⟩) ++
    e.configurationDirectory?.toList.map (⟨.user, Discovery.userDirectory ·⟩) ++
    [⟨.project, Discovery.projectDirectory (projectRoot o e)⟩]

/-- The warnings about files that were not used. -/
def warnings (found : Discovery.Outcome) : String :=
  String.join (found.skipped.map fun s =>
    line ("warning: skipped " ++ s.path ++ " (" ++ s.source.word ++ "): " ++ s.error))

/-- Starts a session, or tells why there is none. -/
def start (o : Options) (e : Environment) (t : Files) : Except (List String) Session :=
  match Discovery.discover (Discovery.places t e.place (directories o e)) with
  | .error conflicts =>
    .error ["workflow discovery failed", Discovery.conflictMessage conflicts]
  | .ok found => .ok { options := o, environment := e, files := t, found }

/-- Registers workflows in order. -/
def registerWorkflows (r : Registry Builtin) :
    List Workflow → Except RegistryError (Registry Builtin)
  | [] => .ok r
  | w :: rest => do registerWorkflows (← r.registerWorkflow w) rest

/-- The components of a session: the built-in callables and the workflows that were found. -/
def registry (s : Session) : Except (List String) (Registry Builtin) := do
  let empty : Registry Builtin := { lenient := s.options.lenient }
  let (registered, r) := empty.registerBuiltins id
  let result : Except RegistryError (Registry Builtin) := do
    let () ← registered
    registerWorkflows r (s.found.workflows.map fun f => f.2.workflow)
  result.mapError fun e => [e.message]

/-- The causes of a failure to load a document. -/
def loadCauses : LoadError → List String
  | .unreadable path reason => [(LoadError.unreadable path reason).message, reason]
  | e => [e.message]

/-- Loads the workflow that is named by a path or a name. -/
def load {κ : Type} (s : Session) (target : String) (r : Registry κ) :
    Except (List String) Workflow :=
  if s.files.isFileAt s.environment.place target then
    (Document.loadFile r s.files s.environment.place target).mapError fun e =>
      ("cannot load " ++ target) :: loadCauses e
  else match s.found.workflows.get? target with
    | none => .error ["no workflow named '" ++ target ++ "' (see \x60" ++ programName ++ " list\x60)"]
    | some f =>
      let blocking := Document.blocking r f.workflow
      if blocking.isEmpty then .ok f.workflow
      else .error ["cannot load " ++ f.path, (LoadError.unresolved blocking).message]

end Session

end Stepflow.CommandLine

/-! ## Looking -/

namespace Stepflow.CommandLine

/-- A text with blanks behind it, up to a width. -/
def paddedTo (width : Nat) (text : String) : String :=
  text ++ String.ofList (List.replicate (width - text.length) ' ')

namespace Session

/-- The report of what was written, with the warnings of the session. -/
def report (s : Session) (status : Nat) (out : String) : Report :=
  { status, out, errors := warnings s.found }

/-- The report of a failure, with the warnings of the session. -/
def failure (s : Session) (causes : List String) : Report :=
  let r := Report.failed causes
  { r with errors := warnings s.found ++ r.errors }

/-- The registry for looking at workflows: everything may be unknown. -/
def indulgent : Registry Builtin := { lenient := true }

/-! ### Lists -/

/-- An entry of a list, as JSON. -/
def listedValue (f : Discovery.Found) : Value :=
  .obj [("description", .str f.metadata.description), ("name", .str f.metadata.name),
    ("overrides", .arr (f.overrides.map .str)), ("path", .str f.path),
    ("source", .str f.source.word), ("version", .str f.metadata.version)]

/-- An entry of a list, as a line. -/
def listedLine (f : Discovery.Found) : String :=
  let shadowed :=
    if f.overrides.isEmpty then "" else " (overrides " ++ toString f.overrides.length ++ ")"
  line (paddedTo 24 f.metadata.name ++ " " ++ f.source.word ++ " " ++ f.metadata.description ++
    shadowed)

/-- The list of the workflows that are found. -/
def listing (s : Session) : String :=
  let found := s.found.workflows.map Prod.snd
  if s.options.json then line (Value.arr (found.map listedValue)).pretty
  else if found.isEmpty then
    line "No workflows found in:" ++
      String.join ((directories s.options s.environment).map fun d =>
        line ("  " ++ d.source.word ++ " " ++ d.path))
  else String.join (found.map listedLine)

/-! ### One workflow -/

/-- A declared input, as a line. -/
def inputLine (name : String) (d : InputDeclaration) : String :=
  line ("  " ++ name ++ ": " ++ d.type.word ++ (if d.required then " (required)" else "") ++
    (match d.default with
      | some v => " = " ++ v.compact
      | none => "") ++
    (if d.description = "" then "" else "  " ++ d.description))

/-- Where a workflow of this name was found. -/
def origin (s : Session) (name : String) : String :=
  match s.found.workflows.get? name with
  | none => ""
  | some f =>
    line ("source: " ++ f.source.word ++ " (" ++ f.path ++ ")") ++
      String.join (f.overrides.map fun path => line ("overrides: " ++ path))

/-- A workflow in detail. -/
def details (s : Session) (w : Workflow) : String :=
  if s.options.json then line w.json
  else
    line (w.name ++ " (version " ++ w.version ++ ")") ++ s.origin w.name ++
      (if w.description = "" then "" else line w.description) ++
      (if w.inputs.isEmpty then ""
        else line "" ++ line "inputs:" ++ String.join (w.inputs.map fun (n, d) => inputLine n d)) ++
      line "" ++ line "steps:" ++ w.outline

/-- A drawing of a workflow. -/
def drawn (drawing : Drawing) (w : Workflow) : String :=
  match drawing with
  | .ascii => w.outline
  | .mermaid => w.mermaid

/-- Shows something of the workflow that is named. -/
def showing (s : Session) (target : String) (view : Workflow → String) : Report :=
  match s.load target indulgent with
  | .error causes => s.failure causes
  | .ok w => s.report 0 (view w)

/-! ### Validation -/

/-- An issue, as JSON. -/
def issueValue (i : Issue) : Value :=
  .obj [("location", .str i.location.text), ("message", .str i.problem.message)]

/-- What is wrong with a document, as JSON. -/
def reportValue (r : Stepflow.Report) : Value :=
  .obj [("errors", .arr (r.issues.map issueValue)), ("valid", .bool r.isValid),
    ("warnings", .arr (r.warnings.map issueValue))]

/-- What is wrong with the document in a file. -/
def verdict (s : Session) (file : String) (r : Stepflow.Report) : String :=
  if s.options.json then line (reportValue r).pretty
  else
    String.join (r.warnings.map fun i => line ("warning: " ++ i.text)) ++
      String.join (r.issues.map fun i => line ("error: " ++ i.text)) ++
      line (if r.isValid then file ++ " is valid"
        else file ++ ": " ++ toString r.issues.length ++ " problem(s)")

/-- Checks the document in a file. -/
def validate (s : Session) (file : String) : Except (List String) Stepflow.Report := do
  let r ← s.registry
  match s.files.readTextAt s.environment.place file with
  | .error o => .error ["cannot read " ++ file, o.message]
  | .ok text =>
    (Document.validate r text).mapError fun e => ("cannot decode " ++ file) :: loadCauses e

/-- The report on the document in a file. -/
def validation (s : Session) (file : String) : Report :=
  match s.validate file with
  | .error causes => s.failure causes
  | .ok r => s.report (if r.isValid then 0 else 1) (s.verdict file r)

end Session

end Stepflow.CommandLine
