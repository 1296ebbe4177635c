import Stepflow.Expression.Evaluation
import Stepflow.Validation.Report
import Stepflow.Workflow.Basic

/-!
# Checking a workflow by itself

`Workflow.check` finds everything that can be said to be wrong with a workflow without looking at
the components it names: its version and name, the declarations of its inputs, the names of its
steps, and for each step its decorations, its payload and the references in it.

A reference to a step must name a step that stands in an earlier step of the top level, at any depth
inside it.
-/

namespace Stepflow

open Text

namespace Workflow

/-- The number of characters that the name of a workflow may have. -/
def maxNameLength : Nat := 64

/-- Whether a character is a small Latin letter. -/
def isSmallLetter (c : Char) : Bool := 'a' ≤ c && c ≤ 'z'

/-- Whether workflows may have a name: a small letter, then small letters, digits and hyphens. -/
def isValidName (name : String) : Bool :=
  match name.toList with
  | [] => false
  | c :: rest =>
    isSmallLetter c && rest.length < maxNameLength &&
      rest.all fun c => isSmallLetter c || isDigit c || c = '-'

/-- The major version that is supported. -/
def supportedMajor : Nat := 1

/-- The versions that are supported, as messages name them. -/
def supportedVersions : String := toString supportedMajor ++ ".x"

/-- Whether a version is supported, if it is well formed. -/
def versionSupported? (version : String) : Option Bool :=
  (parseVersion? version).map fun v => v.1 = supportedMajor

/-- Whether inputs may have a name: letters, digits, underscores and hyphens, at least one. -/
def isValidInputName (name : String) : Bool :=
  name ≠ "" && name.toList.all Expression.isNameChar

/-- The names of the steps that are done once the given steps are: theirs and those of all steps
inside them. -/
def namesIn (steps : List Step) : List String := (steps.flatMap Step.subtree).map Step.name

end Workflow

namespace Validation

/-- A report with one problem, if a condition holds. -/
def issueIf (condition : Bool) (location : Location) (problem : Problem) : List Issue :=
  if condition then [⟨location, problem⟩] else []

/-- What is wrong with the declaration of an input. -/
def inputIssues (name : String) (d : InputDeclaration) : List Issue :=
  let here : Location := [.field "inputs", .field name]
  issueIf (!Workflow.isValidInputName name) here .badInputName ++
    match d.default with
    | some v => issueIf (!d.type.accepts v) (here.field "default") (.badDefault v d.type)
    | none => []

/-- Each step whose name an earlier step has. `seen` holds the names met so far and where each was
met first. -/
def duplicateIssues (seen : List (String × Location)) : List (Location × Step) → List Issue
  | [] => []
  | (loc, s) :: rest =>
    if s.name = "" then duplicateIssues seen rest
    else match seen.lookup s.name with
      | some first => ⟨loc.field "name", .duplicateName s.name first⟩ :: duplicateIssues seen rest
      | none => duplicateIssues ((s.name, loc) :: seen) rest

/-- What is known about a workflow while its steps are checked. -/
structure Scope where
  /-- The workflow. -/
  workflow : Workflow
  /-- The names of the steps that are done before. -/
  available : List String

/-- What is wrong with a reference. -/
def referenceIssues (scope : Scope) (loc : Location) (e : Expression) : List Issue :=
  match e.root with
  | .input =>
    issueIf (!scope.workflow.inputs.contains e.rootName) loc (.undeclaredInput e.raw e.rootName)
  | .stepOutput =>
    issueIf (!scope.available.contains e.rootName) loc (.unavailableStep e.raw e.rootName)
  | .config => []

/-- What is wrong with the references in a text. -/
def textIssues (scope : Scope) (loc : Location) (s : String) : List Issue :=
  if Embedded.occursIn s then
    match Embedded.extract s with
    | .ok es => es.flatMap (referenceIssues scope loc)
    | .error e => [⟨loc, .badReference e⟩]
  else []

mutual

/-- What is wrong with the references in a value. -/
def valueIssues (scope : Scope) (loc : Location) : Value → List Issue
  | .str s => textIssues scope loc s
  | .arr items => itemIssues scope loc 0 items
  | .obj fields => fieldIssues scope loc fields
  | .null | .bool _ | .int _ | .float _ => []

/-- What is wrong with the references in the members of a list, the first of which stands at a
place. -/
def itemIssues (scope : Scope) (loc : Location) (place : Nat) : List Value → List Issue
  | [] => []
  | v :: rest => valueIssues scope (loc.index place) v ++ itemIssues scope loc (place + 1) rest

/-- What is wrong with the references in named values. -/
def fieldIssues (scope : Scope) (loc : Location) : List (String × Value) → List Issue
  | [] => []
  | (k, v) :: rest => valueIssues scope (loc.field k) v ++ fieldIssues scope loc rest

end

/-- What is wrong with the name of a component. -/
def nameIssues (loc : Location) (name : String) : List Issue :=
  issueIf (trim name.toList).isEmpty loc .emptyReference

/-- What is wrong with names in a list, the first of which stands at a place. -/
def stageIssues (loc : Location) (place : Nat) : List String → List Issue
  | [] => []
  | s :: rest => nameIssues (loc.index place) s ++ stageIssues loc (place + 1) rest

/-- What is wrong with the conditions of options, the first of which stands at a place. -/
def optionIssues (scope : Scope) (loc : Location) (place : Nat) :
    List (BranchOption Step) → List Issue
  | [] => []
  | o :: rest =>
    referenceIssues scope ((loc.index place).field "when") o.condition ++
      optionIssues scope loc (place + 1) rest

/-- What is wrong with a retry policy. -/
def policyIssues (loc : Location) (p : RetryPolicy) : List Issue :=
  issueIf (p.maxAttempts = 0) (loc.field "max_attempts") .noTries ++
    issueIf (!p.backoff.isFinite || p.backoff < 0.0) (loc.field "backoff") .badBackoff

/-- What is wrong with what a step does, the steps inside it left out. -/
def kindIssues (scope : Scope) (loc : Location) : StepKind Step → List Issue
  | .call action args kwargs =>
    nameIssues (loc.field "action") action ++ itemIssues scope (loc.field "args") 0 args ++
      fieldIssues scope (loc.field "kwargs") kwargs
  | .agent agent context _ =>
    nameIssues (loc.field "agent") agent ++ fieldIssues scope (loc.field "context") context
  | .generate generator context _ =>
    nameIssues (loc.field "generator") generator ++
      fieldIssues scope (loc.field "context") context
  | .validate stages _ _ =>
    issueIf stages.isEmpty (loc.field "stages") .noStages ++
      stageIssues (loc.field "stages") 0 stages
  | .subworkflow workflow inputs =>
    nameIssues (loc.field "workflow") workflow ++
      issueIf (workflow = scope.workflow.name) (loc.field "workflow") (.selfInvocation workflow) ++
      fieldIssues scope (loc.field "inputs") inputs
  | .branch options =>
    issueIf options.isEmpty (loc.field "options") .noOptions ++
      optionIssues scope (loc.field "options") 0 options
  | .parallel members => issueIf members.isEmpty (loc.field "steps") .noMembers

/-- What is wrong with a step, the steps inside it left out. -/
def stepIssues (scope : Scope) (topLevel : Bool) (loc : Location) (s : Step) : List Issue :=
  issueIf (s.name = "") (loc.field "name") .emptyName ++
    (s.condition.toList.flatMap (referenceIssues scope (loc.field "when"))) ++
    (s.retryPolicy.toList.flatMap (policyIssues (loc.field "retry_policy"))) ++
    issueIf (s.checkpoint && !topLevel) (loc.field "checkpoint") .nestedCheckpoint ++
    kindIssues scope loc s.kind

/-- What is wrong with a step of the top level and the steps inside it. -/
def treeIssues (scope : Scope) (loc : Location) (s : Step) : List Issue :=
  match s.located loc with
  | [] => []
  | (l, s) :: inner =>
    stepIssues scope true l s ++ inner.flatMap fun (l, s) => stepIssues scope false l s

/-- What is wrong with the steps of the top level from a place on; `before` are the steps before
it. -/
def stepsIssues (w : Workflow) (before : List Step) (place : Nat) : List Step → List Issue
  | [] => []
  | s :: rest =>
    treeIssues ⟨w, Workflow.namesIn before⟩ [.field "steps", .index place] s ++
      stepsIssues w (before ++ [s]) (place + 1) rest

end Validation

open Validation in
/-- **Checking a workflow by itself**: everything that is wrong with it, its components aside. -/
def Workflow.check (w : Workflow) : Report :=
  { issues :=
      issueIf (parseVersion? w.version).isNone [.field "version"] (.malformedVersion w.version) ++
      issueIf (!isValidName w.name) [.field "name"] (.badWorkflowName w.name maxNameLength) ++
      w.inputs.flatMap (fun (name, d) => inputIssues name d) ++
      issueIf w.steps.isEmpty [.field "steps"] .noSteps ++
      duplicateIssues [] w.located ++ stepsIssues w [] 0 w.steps }

end Stepflow
