import Stepflow.Json.Printer
import Stepflow.Workflow.Basic

/-!
# The inputs of a run

Before a workflow is run, the inputs that it is given are compared with those that it declares: each
given one must have the declared type, and of those not given the default is taken. An input that is
required, not given and without default stops the run, and so does one of the wrong type; of several
such inputs the first by name is reported. Inputs that are not declared pass through.
-/

namespace Stepflow

/-- The ways in which the inputs of a run can be refused. -/
inductive InputError where
  /-- A required input is missing. -/
  | missing (workflow input : String)
  /-- An input is not of its declared type. -/
  | mistyped (workflow input : String) (expected : InputType) (actual : Value)

/-- The wording of a refusal. -/
def InputError.message : InputError → String
  | .missing workflow input => "workflow '" ++ workflow ++ "' requires input '" ++ input ++ "'"
  | .mistyped workflow input expected actual =>
    "input '" ++ input ++ "' of workflow '" ++ workflow ++ "' must be of type " ++ expected.word ++
      ", got " ++ actual.compact

namespace Workflow

/-- Settles one declared input. -/
def settleInput (w : Workflow) (given : Fields) (name : String) (d : InputDeclaration) :
    Except InputError Fields :=
  match given.get? name with
  | some v => if d.type.accepts v then .ok given else .error (.mistyped w.name name d.type v)
  | none =>
    match d.default with
    | some v => .ok (given.insert name v)
    | none => if d.required then .error (.missing w.name name) else .ok given

/-- Settles declared inputs in order. -/
def settleInputs (w : Workflow) : Table InputDeclaration → Fields → Except InputError Fields
  | [], given => .ok given
  | (name, d) :: rest, given => do
    let given ← w.settleInput given name d
    w.settleInputs rest given

/-- **The inputs of a run** of a workflow that is given some inputs. -/
def resolveInputs (w : Workflow) (given : Fields) : Except InputError Fields :=
  w.settleInputs w.inputs given

end Workflow

end Stepflow
