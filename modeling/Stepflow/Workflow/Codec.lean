import Stepflow.Expression.Parser
import Stepflow.Json.Printer
import Stepflow.Workflow.Basic
import Stepflow.Yaml.Alias

/-!
# Workflows as documents

How workflows are read from documents, and written as the values that documents hold.
-/

/-!
## Reading workflows

A document that begins with an opening brace is JSON text; any other is YAML text. Either becomes an
`Item`, and `Workflow.ofItem?` reads the workflow out of it.

A step's record mixes two kinds of fields. Those that every step has are read as they stand. All
others are first given a meaning (`Item.settle?`), and the record of the step's kind is read from
them; so are the steps nested in it. Fields that no record has are passed over.
-/

namespace Stepflow

namespace Item

mutual

/-- How deeply an item is nested, counting the item itself. -/
def height : Item → Nat
  | .list _ items => heightItems items + 1
  | .mapping entries => heightEntries entries + 1
  | .tagged i => height i + 1
  | .datum _ | .written _ | .unreadable => 1

/-- The greatest height among items. -/
def heightItems : List Item → Nat
  | [] => 0
  | i :: rest => max (height i) (heightItems rest)

/-- The greatest height among the values of entries. -/
def heightEntries : List (Item × Item) → Nat
  | [] => 0
  | (_, i) :: rest => max (height i) (heightEntries rest)

end

/-- A field of a record, where leaving it out means a default. -/
def field? {α : Type} (fields : List (String × Item)) (name : String) (default : α)
    (read : Item → Option α) : Option α :=
  match fields.lookup name with
  | none => some default
  | some i => read i

/-- A field of a record that may not be left out. -/
def required? {α : Type} (fields : List (String × Item)) (name : String)
    (read : Item → Option α) : Option α :=
  (fields.lookup name).bind read

/-- A reference. -/
def expression? (i : Item) : Option Expression :=
  i.text?.bind fun s => (Expression.parse s).toOption

end Item

/-- The first number that is too large for a count in a document. -/
def countBound : Nat := Nat.pow 2 32

namespace RetryPolicy

/-- Reads a retry policy. -/
def ofItem? (i : Item) : Option RetryPolicy := do
  let fields ← i.record? ["max_attempts", "backoff"]
  let maxAttempts ← Item.field? fields "max_attempts" 3 (Item.nat? countBound)
  let backoff ← Item.field? fields "backoff" 1.0 Item.float?
  some { maxAttempts, backoff }

end RetryPolicy

namespace InputDeclaration

/-- Reads the declaration of an input. -/
def ofItem? (i : Item) : Option InputDeclaration := do
  let fields ← i.record? ["type", "required", "default", "description"]
  let type ← Item.required? fields "type" (Item.choice? InputType.ofWord?)
  let required ← Item.field? fields "required" false Item.bool?
  let default ← Item.field? fields "default" none (Item.optional? Item.value?)
  let description ← Item.field? fields "description" "" Item.text?
  some { type, required, default, description }

end InputDeclaration

namespace Step

/-- The fields that steps of all kinds have. -/
def commonFields : List String :=
  ["name", "when", "retry_policy", "on_error", "skip_on_error", "rollback", "checkpoint"]

/-- Parts the entries of a step's record into the fields that all steps have, each of which may be
given once, and the others, settled. -/
def splitFields? : List (Item × Item) → Option (List (String × Item) × List (Item × Item))
  | [] => some ([], [])
  | (k, v) :: rest => do
    let (common, others) ← splitFields? rest
    let other (key : Item) : Option (List (String × Item) × List (Item × Item)) :=
      v.settle?.map fun v => (common, (key, v) :: others)
    match k with
    | .datum (.int n) => if 0 ≤ n then other k else none
    | _ =>
      let name ← k.text?
      if commonFields.contains name then
        if (common.lookup name).isSome then none else some ((name, v) :: common, others)
      else other (.datum (.text name))

/-- Whether a key is the field that names the kind of a step. -/
def isTypeKey : Item → Bool
  | .datum (.text s) => s = "type"
  | _ => false

/-- The kind that the value of a step's `type` names, by its word or by its number. -/
def typeOf? : Item → Option StepType
  | .datum (.text s) => StepType.ofWord? s
  | .datum (.int n) => if 0 ≤ n then StepType.all[n.toNat]? else none
  | _ => none

/-- The fields that only steps of one kind have. -/
def payloadNames : StepType → List String
  | .call => ["action", "args", "kwargs"]
  | .agent => ["agent", "context", "context_builder"]
  | .generate => ["generator", "context", "context_builder"]
  | .validate => ["stages", "retry", "on_failure"]
  | .subworkflow => ["workflow", "inputs"]
  | .branch => ["options"]
  | .parallel => ["steps"]

/-- Reads an option of a branch; `step?` reads the step in it. -/
def option? (step? : Item → Option Step) (i : Item) : Option (BranchOption Step) := do
  let fields ← i.record? ["when", "step"]
  let condition ← Item.required? fields "when" Item.expression?
  let step ← Item.required? fields "step" step?
  some ⟨condition, step⟩

/-- Reads what a step of a kind does from the fields that only such steps have; `step?` reads the
steps nested in it. -/
def payload? (step? : Item → Option Step) (fields : List (String × Item)) :
    StepType → Option (StepKind Step)
  | .call => do
    let action ← Item.required? fields "action" Item.text?
    let args ← Item.field? fields "args" [] (Item.list? Item.value?)
    let kwargs ← Item.field? fields "kwargs" [] Item.object?
    some (.call action args kwargs)
  | .agent => do
    let agent ← Item.required? fields "agent" Item.text?
    let context ← Item.field? fields "context" [] Item.object?
    let builder ← Item.field? fields "context_builder" none (Item.optional? Item.text?)
    some (.agent agent context builder)
  | .generate => do
    let generator ← Item.required? fields "generator" Item.text?
    let context ← Item.field? fields "context" [] Item.object?
    let builder ← Item.field? fields "context_builder" none (Item.optional? Item.text?)
    some (.generate generator context builder)
  | .validate => do
    let stages ← Item.required? fields "stages" (Item.list? Item.text?)
    let retry ← Item.field? fields "retry" defaultFixAttempts (Item.nat? countBound)
    let fix ← Item.field? fields "on_failure" none (Item.optional? step?)
    some (.validate stages retry fix)
  | .subworkflow => do
    let workflow ← Item.required? fields "workflow" Item.text?
    let inputs ← Item.field? fields "inputs" [] Item.object?
    some (.subworkflow workflow inputs)
  | .branch => do
    let options ← Item.required? fields "options" (Item.list? (option? step?))
    some (.branch options)
  | .parallel => do
    let members ← Item.required? fields "steps" (Item.list? step?)
    some (.parallel members)

/-- Reads what a step does from its settled fields. -/
def kind? (step? : Item → Option Step) (others : List (Item × Item)) : Option (StepKind Step) :=
  match others.filter fun e => isTypeKey e.1 with
  | [(_, t)] => do
    let type ← typeOf? t
    let fields ← (Item.mapping (others.filter fun e => !isTypeKey e.1)).record? (payloadNames type)
    payload? step? fields type
  | _ => none

/-- Reads a step whose item is at most `room` high. -/
def read? : (room : Nat) → Item → Option Step
  | 0, _ => none
  | room + 1, i => do
    let entries ← i.entries?
    let (common, others) ← splitFields? entries
    let name ← Item.required? common "name" Item.text?
    let kind ← kind? (read? room) others
    let condition ← Item.field? common "when" none (Item.optional? Item.expression?)
    let retryPolicy ← Item.field? common "retry_policy" none (Item.optional? RetryPolicy.ofItem?)
    let onError ← Item.field? common "on_error" none (Item.optional? (read? room))
    let skipOnError ← Item.field? common "skip_on_error" false Item.bool?
    let rollback ← Item.field? common "rollback" none (Item.optional? Item.text?)
    let checkpoint ← Item.field? common "checkpoint" false Item.bool?
    some { name, kind, condition, retryPolicy, onError, skipOnError, rollback, checkpoint }

/-- Reads a step. -/
def ofItem? (i : Item) : Option Step := read? i.height i

end Step

namespace Workflow

/-- Reads a version: a text, or a number, which is taken by its JSON text. -/
def version? (i : Item) : Option String := do
  match ← i.settle? with
  | .datum (.text s) => some s
  | .datum (.int n) => some (Value.int n).compact
  | .datum .negativeZero => some (Value.int 0).compact
  | .datum (.float x) => if x.isFinite then some (Value.float x).compact else none
  | _ => none

/-- Reads a workflow. -/
def ofItem? (i : Item) : Option Workflow := do
  let fields ← i.record? ["version", "name", "description", "inputs", "steps"]
  let version ← Item.required? fields "version" version?
  let name ← Item.required? fields "name" Item.text?
  let description ← Item.field? fields "description" "" Item.text?
  let inputs ← Item.field? fields "inputs" [] (Item.table? InputDeclaration.ofItem?)
  let steps ← Item.required? fields "steps" (Item.list? Step.ofItem?)
  some { version, name, description, inputs, steps }

/-- The parts of a document that the reader of workflows looks at. -/
def reach : Yaml.Reach :=
  .only [("version", .all), ("name", .all), ("description", .all), ("steps", .all),
    ("inputs", .each (.only [("type", .all), ("required", .all), ("default", .all),
      ("description", .all)]))]

end Workflow

namespace Document

/-- Whether a document is JSON text: its first character that is not blank is an opening brace. -/
def isJson (cs : List Char) : Bool := (Text.trimStart cs).head? = some '{'

/-- The item of a document, of which a reader looks at the parts in `reach`. -/
def item? (reach : Yaml.Reach) (text : String) : Option Item :=
  let cs := text.toList
  if isJson cs then (Json.read? cs).map (Item.ofJson Json.maxDepth) else Yaml.toItem? reach cs

/-- The workflow that a document holds. -/
def workflow? (text : String) : Option Workflow := (item? Workflow.reach text).bind Workflow.ofItem?

/-- The value that a document writes, as far as all of it has one. -/
def value? (text : String) : Option Value := (item? .all text).bind Item.value?

end Document

/-!
## Writing workflows as values

The value of a workflow is the object that its document holds. Fields stand in a fixed order, which
is the order in which they are printed, and fields that have their default are left out.
-/

/-- A field that is left out if a condition holds. -/
def fieldUnless (omitted : Bool) (name : String) (v : Value) : List (String × Value) :=
  if omitted then [] else [(name, v)]

/-- A field that is left out if there is nothing to say. -/
def fieldOf {α : Type} (name : String) (f : α → Value) : Option α → List (String × Value)
  | none => []
  | some a => [(name, f a)]

namespace RetryPolicy

/-- The object of a retry policy. -/
def toValue (p : RetryPolicy) : Value :=
  .obj [("max_attempts", .int p.maxAttempts), ("backoff", .float p.backoff)]

end RetryPolicy

namespace InputDeclaration

/-- The object of the declaration of an input. -/
def toValue (d : InputDeclaration) : Value :=
  .obj ([("type", .str d.type.word)] ++ fieldUnless (!d.required) "required" (.bool true) ++
    fieldOf "default" id d.default ++ fieldUnless (d.description = "") "description"
      (.str d.description))

end InputDeclaration

namespace Step

mutual

/-- The object of a step. -/
def toValue : Step → Value
  | ⟨name, kind, condition, retryPolicy, onError, skipOnError, rollback, checkpoint⟩ =>
    .obj ([("name", .str name), ("type", .str kind.type.word)] ++ payload kind ++
      fieldOf "when" (fun e : Expression => .str e.raw) condition ++
      fieldOf "retry_policy" RetryPolicy.toValue retryPolicy ++ optional "on_error" onError ++
      fieldUnless (!skipOnError) "skip_on_error" (.bool true) ++
      fieldOf "rollback" .str rollback ++ fieldUnless (!checkpoint) "checkpoint" (.bool true))

/-- The fields of what a step does. -/
def payload : StepKind Step → List (String × Value)
  | .call action args kwargs =>
    [("action", .str action)] ++ fieldUnless args.isEmpty "args" (.arr args) ++
      fieldUnless kwargs.isEmpty "kwargs" (.obj kwargs)
  | .agent agent context builder =>
    [("agent", .str agent)] ++ fieldUnless context.isEmpty "context" (.obj context) ++
      fieldOf "context_builder" .str builder
  | .generate generator context builder =>
    [("generator", .str generator)] ++ fieldUnless context.isEmpty "context" (.obj context) ++
      fieldOf "context_builder" .str builder
  | .validate stages retry fix =>
    [("stages", .arr (stages.map .str)), ("retry", .int retry)] ++ optional "on_failure" fix
  | .subworkflow workflow inputs =>
    [("workflow", .str workflow)] ++ fieldUnless inputs.isEmpty "inputs" (.obj inputs)
  | .branch options => [("options", .arr (optionValues options))]
  | .parallel members => [("steps", .arr (stepValues members))]

/-- The field of a step that may be missing. -/
def optional (name : String) : Option Step → List (String × Value)
  | none => []
  | some s => [(name, toValue s)]

/-- The objects of the options of a branch. -/
def optionValues : List (BranchOption Step) → List Value
  | [] => []
  | ⟨condition, step⟩ :: rest =>
    .obj [("when", .str condition.raw), ("step", toValue step)] :: optionValues rest

/-- The objects of steps. -/
def stepValues : List Step → List Value
  | [] => []
  | s :: rest => toValue s :: stepValues rest

end

end Step

namespace Workflow

/-- The object of a workflow. -/
def toValue (w : Workflow) : Value :=
  .obj ([("version", .str w.version), ("name", .str w.name)] ++
    fieldUnless (w.description = "") "description" (.str w.description) ++
    fieldUnless w.inputs.isEmpty "inputs"
      (.obj (w.inputs.map fun e => (e.1, e.2.toValue))) ++
    [("steps", .arr (Step.stepValues w.steps))])

end Workflow

end Stepflow
