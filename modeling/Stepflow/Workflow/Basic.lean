import Stepflow.Json.Reader
import Stepflow.Expression.Basic
import Stepflow.Step.Basic

/-!
# Workflows

A workflow has a version, a name, a description, declared inputs and a list of steps. Its version is
written `major.minor`, and one major version is supported.

A declared input has a type. `InputType.accepts` says which values have it, `InputType.parse?` reads
a word of a command line as a value of it.
-/

namespace Stepflow

open Text

/-- The type of an input. -/
inductive InputType where
  /-- A text. -/
  | string
  /-- A whole number. -/
  | integer
  /-- A truth value. -/
  | boolean
  /-- A number of either kind. -/
  | float
  /-- An object. -/
  | object
  /-- A list. -/
  | array
  deriving DecidableEq, Repr

namespace InputType

/-- All types, in the order in which they are numbered. -/
def all : List InputType := [.string, .integer, .boolean, .float, .object, .array]

/-- The word that documents use for a type. -/
def word : InputType → String
  | .string => "string"
  | .integer => "integer"
  | .boolean => "boolean"
  | .float => "float"
  | .object => "object"
  | .array => "array"

/-- The type that a word names. -/
def ofWord? (word : String) : Option InputType := all.find? fun t => t.word = word

/-- Whether a value has the type. Whole numbers are numbers too. -/
def accepts : InputType → Value → Bool
  | .string, .str _ => true
  | .integer, .int _ => true
  | .boolean, .bool _ => true
  | .float, .int _ => true
  | .float, .float _ => true
  | .object, .obj _ => true
  | .array, .arr _ => true
  | _, _ => false

/-- Reads a whole number of 64 bits with an optional sign. -/
def readInt? (cs : List Char) : Option Int :=
  match cs with
  | '-' :: rest =>
    if rest.head? = some '+' then none
    else (readNat? (Nat.pow 2 63 + 1) rest).map fun n => -(n : Int)
  | _ => (readNat? (Nat.pow 2 63) cs).map fun n => (n : Int)

/-- Reads a word as a value of the type. A number that is not finite becomes null. -/
def parse? (t : InputType) (raw : String) : Option Value :=
  match t with
  | .string => some (.str raw)
  | .integer => (readInt? raw.toList).map .int
  | .float => (Decimal.readFloat? raw.toList).map Value.ofFloat
  | .boolean =>
    let word := String.ofList (raw.toList.map Char.toLower)
    if word = "true" || word = "yes" || word = "1" then some (.bool true)
    else if word = "false" || word = "no" || word = "0" then some (.bool false)
    else none
  | .object | .array => (Json.value? raw).filter t.accepts

end InputType

/-- A declared input. -/
structure InputDeclaration where
  /-- The type of its values. -/
  type : InputType
  /-- Whether a run without it is refused. -/
  required : Bool := false
  /-- The value that a run without it gets. -/
  default : Option Value := none
  /-- What it is for. -/
  description : String := ""

/-- A workflow. -/
structure Workflow where
  /-- The version of the document's form, `major.minor`. -/
  version : String
  /-- The name, under which the workflow is registered and found. -/
  name : String
  /-- What the workflow is for. -/
  description : String := ""
  /-- The declared inputs. -/
  inputs : Table InputDeclaration := []
  /-- The steps, in the order in which they are run. -/
  steps : List Step

namespace Workflow

/-- The version that new workflows have. -/
def currentVersion : String := "1.0"

/-- The first number that is too large for a part of a version. -/
def versionBound : Nat := Nat.pow 2 32

/-- The two numbers of a version: decimal digits on both sides of the first point. -/
def parseVersion? (version : String) : Option (Nat × Nat) :=
  match cutAt? ['.'] version.toList with
  | none => none
  | some (major, minor) =>
    if major.isEmpty || minor.isEmpty || !major.all isDigit || !minor.all isDigit then none
    else do
      let major ← readNat? versionBound major
      let minor ← readNat? versionBound minor
      some (major, minor)

/-- The two numbers of the version of a workflow. -/
def versionParts? (w : Workflow) : Option (Nat × Nat) := parseVersion? w.version

/-- The first step of a name. -/
def step? (w : Workflow) (name : String) : Option Step := w.steps.find? fun s => s.name = name

/-- A workflow without steps yet. -/
def empty (name : String) : Workflow := { version := currentVersion, name, steps := [] }

/-- Declares an input. -/
def declare (w : Workflow) (name : String) (d : InputDeclaration) : Workflow :=
  { w with inputs := w.inputs.insert name d }

/-- Appends a step. -/
def append (w : Workflow) (s : Step) : Workflow := { w with steps := w.steps ++ [s] }

end Workflow

end Stepflow

/-!
## Where the steps of a workflow stand

Every step of a workflow, at any depth, has a location in the document. `Workflow.located` lists all
steps with their locations in document order: a step comes before the steps inside it, and these
come in the order fix, options or members, then the fallback.

What a document is checked for is said step by step over this list.
-/

namespace Stepflow

namespace Step

mutual

/-- A step and all steps inside it, with their locations. -/
def located (loc : Location) : Step → List (Location × Step)
  | ⟨name, kind, condition, retryPolicy, onError, skipOnError, rollback, checkpoint⟩ =>
    (loc, ⟨name, kind, condition, retryPolicy, onError, skipOnError, rollback, checkpoint⟩) ::
      (locatedKind loc kind ++ locatedOption (loc.field "on_error") onError)

/-- The steps inside a kind of step. -/
def locatedKind (loc : Location) : StepKind Step → List (Location × Step)
  | .validate _ _ fix => locatedOption (loc.field "on_failure") fix
  | .branch options => locatedOptions (loc.field "options") 0 options
  | .parallel members => locatedMembers (loc.field "steps") 0 members
  | .call .. | .agent .. | .generate .. | .subworkflow .. => []

/-- The steps of a step that may be missing. -/
def locatedOption (loc : Location) : Option Step → List (Location × Step)
  | none => []
  | some s => located loc s

/-- The steps in the options of a branch, the first of which stands at a place. -/
def locatedOptions (loc : Location) (place : Nat) :
    List (BranchOption Step) → List (Location × Step)
  | [] => []
  | ⟨_, s⟩ :: rest =>
    located ((loc.index place).field "step") s ++ locatedOptions loc (place + 1) rest

/-- The steps in a list of steps, the first of which stands at a place. -/
def locatedMembers (loc : Location) (place : Nat) : List Step → List (Location × Step)
  | [] => []
  | s :: rest => located (loc.index place) s ++ locatedMembers loc (place + 1) rest

end

/-- A step and all steps inside it. -/
def subtree (s : Step) : List Step := (s.located []).map Prod.snd

end Step

/-- All steps of a workflow with their locations, in document order. -/
def Workflow.located (w : Workflow) : List (Location × Step) :=
  Step.locatedMembers [.field "steps"] 0 w.steps

end Stepflow
