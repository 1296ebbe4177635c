import Stepflow.Expression.Basic
import Stepflow.Json.Printer
import Stepflow.Registry.Basic

/-!
# Validation reports

A report lists every problem that was found in a document, each with its location. References to
components that a lenient registry does not know are warnings, not problems.
-/

namespace Stepflow

/-- What can be wrong with a document. -/
inductive Problem where
  /-- The version is well formed but not supported. -/
  | unsupportedVersion (version supported : String)
  /-- The version is not of the form `major.minor`. -/
  | malformedVersion (version : String)
  /-- The workflow has a name that workflows may not have. -/
  | badWorkflowName (name : String) (longest : Nat)
  /-- An input has a name that inputs may not have. -/
  | badInputName
  /-- The default of an input is not of its type. -/
  | badDefault (default : Value) (type : InputType)
  /-- The workflow has no steps. -/
  | noSteps
  /-- The name of a step is taken by an earlier one. -/
  | duplicateName (name : String) (first : Location)
  /-- A step has no name. -/
  | emptyName
  /-- A retry policy allows no try. -/
  | noTries
  /-- The backoff of a retry policy is negative or not finite. -/
  | badBackoff
  /-- A step inside another one asks for a checkpoint. -/
  | nestedCheckpoint
  /-- The name of a component is blank. -/
  | emptyReference
  /-- A validation has no stages. -/
  | noStages
  /-- A workflow runs itself. -/
  | selfInvocation (workflow : String)
  /-- A branch has no options. -/
  | noOptions
  /-- A group has no members. -/
  | noMembers
  /-- A text holds something that is not a reference. -/
  | badReference (e : Expression.SyntaxError)
  /-- A reference names an input that is not declared. -/
  | undeclaredInput (raw name : String)
  /-- A reference names a step that does not run earlier. -/
  | unavailableStep (raw name : String)
  /-- A record has a field that it does not know. -/
  | unknownField (field : String)
  /-- A step has a field that steps of its kind do not know. -/
  | unknownStepField (field type : String)
  /-- A component is not registered. -/
  | unresolved (e : RegistryError)

/-- The wording of a problem. -/
def Problem.message : Problem → String
  | .unsupportedVersion version supported =>
    "unsupported schema version '" ++ version ++ "' (supported: " ++ supported ++ ")"
  | .malformedVersion version => "'" ++ version ++ "' is not a major.minor version"
  | .badWorkflowName name longest =>
    "'" ++ name ++ "' must start with a lowercase letter and contain only lowercase letters, " ++
      "digits and '-' (max " ++ toString longest ++ ")"
  | .badInputName => "input names may contain only letters, digits, '_' and '-'"
  | .badDefault default type => "default " ++ default.compact ++ " is not of type " ++ type.word
  | .noSteps => "workflow must have at least one step"
  | .duplicateName name first =>
    "duplicate step name '" ++ name ++ "' (first used at " ++ first.text ++ ")"
  | .emptyName => "step name must not be empty"
  | .noTries => "must be at least 1"
  | .badBackoff => "must be a non-negative number of seconds"
  | .nestedCheckpoint => "checkpoints are only supported on top-level steps"
  | .emptyReference => "must not be empty"
  | .noStages => "at least one stage is required"
  | .selfInvocation workflow => "workflow '" ++ workflow ++ "' cannot invoke itself"
  | .noOptions => "at least one option is required"
  | .noMembers => "at least one step is required"
  | .badReference e => e.message
  | .undeclaredInput raw name => "'" ++ raw ++ "' references undeclared input '" ++ name ++ "'"
  | .unavailableStep raw name =>
    "'" ++ raw ++ "' references step '" ++ name ++ "', which does not run before this point"
  | .unknownField field => "unknown field '" ++ field ++ "'"
  | .unknownStepField field type =>
    "unknown field '" ++ field ++ "' for step type '" ++ type ++ "'"
  | .unresolved e => e.message

/-- A problem and where it is. -/
structure Issue where
  /-- Where it is. -/
  location : Location
  /-- What it is. -/
  problem : Problem

/-- The line that a report has for an issue. -/
def Issue.text (i : Issue) : String := i.location.text ++ ": " ++ i.problem.message

/-- What was found in a document. -/
structure Report where
  /-- The problems, in the order in which they were found. -/
  issues : List Issue := []
  /-- The references whose failure is put off. -/
  warnings : List Issue := []

namespace Report

/-- Whether nothing is wrong. -/
def isValid (r : Report) : Bool := r.issues.isEmpty

/-- One report after another. -/
def append (r s : Report) : Report := ⟨r.issues ++ s.issues, r.warnings ++ s.warnings⟩

instance : Append Report := ⟨append⟩

/-- The lines of a report, its warnings left out. -/
def text (r : Report) : String := "\n".intercalate (r.issues.map Issue.text)

end Report

end Stepflow
