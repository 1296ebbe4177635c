import Stepflow.Validation.Definition
import Stepflow.Validation.Report
import Stepflow.Workflow.Basic
import Stepflow.Workflow.Codec

/-!
# Loading documents

Loading a document is reading it, checking it and resolving the components it names, up to the first
of these that fails. `validate` does the same but goes on and gathers all that is wrong into one
report.
-/

/-!
## The components a workflow names

`Workflow.references` lists every occurrence of the name of a component in a workflow, with its
namespace and its location, in document order. Those that a registry does not know are its
unresolved references.
-/

namespace Stepflow

/-- An occurrence of the name of a component. -/
structure Reference where
  /-- Where it stands. -/
  location : Location
  /-- The namespace of the component. -/
  space : Namespace
  /-- The name. -/
  name : String
  deriving DecidableEq

namespace Step

/-- The names in a list, the first of which stands at a place. -/
def stageReferences (loc : Location) (place : Nat) : List String → List Reference
  | [] => []
  | s :: rest => ⟨loc.index place, .callables, s⟩ :: stageReferences loc (place + 1) rest

/-- The names of components in what a step does, the steps inside it left out. -/
def kindReferences (loc : Location) : StepKind Step → List Reference
  | .call action _ _ => [⟨loc.field "action", .callables, action⟩]
  | .agent agent _ builder =>
    ⟨loc.field "agent", .agents, agent⟩ ::
      builder.toList.map fun b => ⟨loc.field "context_builder", .contextBuilders, b⟩
  | .generate generator _ builder =>
    ⟨loc.field "generator", .generators, generator⟩ ::
      builder.toList.map fun b => ⟨loc.field "context_builder", .contextBuilders, b⟩
  | .validate stages _ _ => stageReferences (loc.field "stages") 0 stages
  | .subworkflow workflow _ => [⟨loc.field "workflow", .workflows, workflow⟩]
  | .branch _ | .parallel _ => []

/-- The names of components in a step, the steps inside it left out. -/
def references (loc : Location) (s : Step) : List Reference :=
  kindReferences loc s.kind ++
    s.rollback.toList.map fun a => ⟨loc.field "rollback", .callables, a⟩

end Step

namespace Workflow

/-- Every occurrence of the name of a component. -/
def references (w : Workflow) : List Reference :=
  w.located.flatMap fun (loc, s) => s.references loc

/-- The occurrence of a name that a registry does not know, as a failure of the registry. -/
def unresolved? {κ : Type} (r : Registry κ) (ref : Reference) : Option (Location × RegistryError) :=
  (r.referenceError? ref.space ref.name ref.location.text).map (ref.location, ·)

/-- The references that a registry does not know, with their locations. -/
def unresolved {κ : Type} (w : Workflow) (r : Registry κ) : List (Location × RegistryError) :=
  w.references.filterMap (unresolved? r)

/-- The failures of the references that a registry does not know. -/
def referenceErrors {κ : Type} (w : Workflow) (r : Registry κ) : List RegistryError :=
  (w.unresolved r).map Prod.snd

end Workflow

end Stepflow

/-!
## Fields that nothing reads

A misspelled field, or one that belongs to steps of another kind, is passed over when a document is
read as a workflow. `Validation.unknownFields` finds such fields in the value of a document.
-/

namespace Stepflow.Validation

/-- The fields of a workflow. -/
def workflowFields : List String := ["version", "name", "description", "inputs", "steps"]

/-- The fields of the declaration of an input. -/
def inputFields : List String := ["type", "required", "default", "description"]

/-- The fields that steps of all kinds have. -/
def stepFields : List String :=
  ["name", "type", "when", "retry_policy", "on_error", "skip_on_error", "rollback", "checkpoint"]

/-- The fields of a retry policy. -/
def policyFields : List String := ["max_attempts", "backoff"]

/-- The fields of an option of a branch. -/
def optionFields : List String := ["when", "step"]

/-- The fields that only steps of one kind have. -/
def payloadFields : Option StepType → List String
  | some .call => ["action", "args", "kwargs"]
  | some .agent => ["agent", "context", "context_builder"]
  | some .generate => ["generator", "context", "context_builder"]
  | some .validate => ["stages", "retry", "on_failure"]
  | some .subworkflow => ["workflow", "inputs"]
  | some .branch => ["options"]
  | some .parallel => ["steps"]
  | none => []

/-- The fields of an object that are not among the known ones. -/
def unknownKeys (loc : Location) (known : List String) (fields : Fields) : List Issue :=
  (fields.names.filter fun k => !known.contains k).map fun k => ⟨loc.field k, .unknownField k⟩

/-- The objects among the members of a list, with their places. -/
def membersAt (loc : Location) (v : Option Value) : List (Location × Value) :=
  match v with
  | some (.arr items) => items.zipIdx.map fun (v, i) => (loc.index i, v)
  | _ => []

/-- The unknown fields of a step and of the steps inside it, at most `room` levels deep. -/
def unknownInStep : (room : Nat) → Location → Value → List Issue
  | 0, _, _ => []
  | room + 1, loc, .obj fields =>
    let word := ((Table.get? fields "type").bind Value.str?).getD ""
    let type := StepType.ofWord? word
    let own := (Table.names fields).filter fun k =>
      !stepFields.contains k && !(payloadFields type).contains k
    let policy := match Table.get? fields "retry_policy" with
      | some (.obj p) => unknownKeys (loc.field "retry_policy") policyFields p
      | _ => []
    let fallback := match Table.get? fields "on_error" with
      | some v => unknownInStep room (loc.field "on_error") v
      | none => []
    let inner := match type with
      | some .validate =>
        match Table.get? fields "on_failure" with
        | some v => unknownInStep room (loc.field "on_failure") v
        | none => []
      | some .branch =>
        (membersAt (loc.field "options") (Table.get? fields "options")).flatMap fun (l, o) =>
          match o with
          | .obj option =>
            unknownKeys l optionFields option ++
              match Table.get? option "step" with
              | some v => unknownInStep room (l.field "step") v
              | none => []
          | _ => []
      | some .parallel =>
        (membersAt (loc.field "steps") (Table.get? fields "steps")).flatMap fun (l, v) =>
          unknownInStep room l v
      | _ => []
    own.map (fun k => ⟨loc.field k, .unknownStepField k word⟩) ++ policy ++ fallback ++ inner
  | _ + 1, _, _ => []

/-- The unknown fields of the declarations of inputs. -/
def unknownInInputs : Option Value → List Issue
  | some (.obj inputs) => inputs.flatMap fun (name, v) =>
    match v with
    | .obj d => unknownKeys [.field "inputs", .field name] inputFields d
    | _ => []
  | _ => []

/-- The fields of a document that reading it as a workflow passes over. -/
def unknownFields (document : Value) : Report :=
  match document with
  | .obj fields =>
    { issues :=
        unknownKeys [] workflowFields fields ++ unknownInInputs (Table.get? fields "inputs") ++
        (membersAt [.field "steps"] (Table.get? fields "steps")).flatMap fun (l, v) =>
          unknownInStep document.depth l v }
  | _ => {}

end Stepflow.Validation

/-! ## Verdicts -/

namespace Stepflow

/-- The ways in which loading a document can fail. -/
inductive LoadError where
  /-- It is not a workflow at all. -/
  | undecodable
  /-- Its version is not supported. -/
  | unsupportedVersion (version supported : String)
  /-- Something is wrong with it. -/
  | invalid (report : Report)
  /-- It names components that are not registered. -/
  | unresolved (errors : List RegistryError)
  /-- It cannot be read from where it is kept. -/
  | unreadable (path reason : String)

/-- The wording of a failure. -/
def LoadError.message : LoadError → String
  | .undecodable => "failed to decode workflow document"
  | .unsupportedVersion version supported =>
    "unsupported workflow schema version '" ++ version ++ "' (supported: " ++ supported ++ ")"
  | .invalid report => "invalid workflow:\n" ++ report.text
  | .unresolved errors =>
    "unresolved references:\n" ++ "\n".intercalate (errors.map RegistryError.message)
  | .unreadable path reason => "failed to read workflow file " ++ path ++ ": " ++ reason

namespace Document

/-- The workflow that a document holds, and its fields that nothing reads. -/
def decode? (text : String) : Option (Workflow × Report) := do
  let w ← workflow? text
  let v ← value? text
  some (w, Validation.unknownFields v)

/-- Reads and checks a document, without resolving the components it names. -/
def loadUnresolved (text : String) : Except LoadError Workflow :=
  match decode? text with
  | none => .error .undecodable
  | some (w, unknown) =>
    if Workflow.versionSupported? w.version = some false then
      .error (.unsupportedVersion w.version Workflow.supportedVersions)
    else
      let report := unknown ++ w.check
      if report.isValid then .ok w else .error (.invalid report)

/-- The references of a workflow that keep it from being loaded. -/
def blocking {κ : Type} (r : Registry κ) (w : Workflow) : List RegistryError :=
  (w.referenceErrors r).filter fun e => e.kind ≠ .deferred

/-- **Loading a document**: reads it, checks it and resolves the components it names. -/
def load {κ : Type} (r : Registry κ) (text : String) : Except LoadError Workflow :=
  match loadUnresolved text with
  | .error e => .error e
  | .ok w => if (blocking r w).isEmpty then .ok w else .error (.unresolved (blocking r w))

/-- The issue that the version of a workflow is. -/
def versionIssues (w : Workflow) : List Issue :=
  Validation.issueIf (Workflow.versionSupported? w.version = some false) [.field "version"]
    (.unsupportedVersion w.version Workflow.supportedVersions)

/-- The report on the references of a workflow: those that are put off are warnings. -/
def referenceReport {κ : Type} (r : Registry κ) (w : Workflow) : Report :=
  let issue : Location × RegistryError → Issue := fun (loc, e) => ⟨loc, .unresolved e⟩
  { issues := ((w.unresolved r).filter fun u => u.2.kind ≠ .deferred).map issue
    warnings := ((w.unresolved r).filter fun u => u.2.kind = .deferred).map issue }

/-- **Validating a document**: everything that is wrong with it, unless it cannot be read at all. -/
def validate {κ : Type} (r : Registry κ) (text : String) : Except LoadError Report :=
  match decode? text with
  | none => .error .undecodable
  | some (w, unknown) =>
    .ok (({ issues := versionIssues w } : Report) ++ unknown ++ w.check ++ referenceReport r w)

end Document

end Stepflow
