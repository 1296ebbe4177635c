import Stepflow.Value

/-!
# Contexts

A context is the data that references are looked up in: the inputs of a run, the outputs of the steps
that have completed, and the configuration values.
-/

namespace Stepflow

/-- The data of a run that references can name. -/
structure Context where
  /-- The inputs, defaults included. -/
  inputs : Fields := []
  /-- What each completed step produced, by the name of the step. -/
  outputs : Fields := []
  /-- The configuration values. -/
  config : Fields := []

namespace Context

/-- The context in which the input of a name has a value. -/
def setInput (c : Context) (name : String) (v : Value) : Context :=
  { c with inputs := c.inputs.insert name v }

/-- The context in which the step of a name has produced a value. -/
def setOutput (c : Context) (name : String) (v : Value) : Context :=
  { c with outputs := c.outputs.insert name v }

/-- The context in which the configuration value of a name is set. -/
def setConfig (c : Context) (name : String) (v : Value) : Context :=
  { c with config := c.config.insert name v }

/-- The context in which each of the steps has produced the value beside it, later ones over earlier
ones of the same name. -/
def setOutputs (c : Context) (outputs : List (String × Value)) : Context :=
  outputs.foldl (fun c o => c.setOutput o.1 o.2) c

/-- The context as one object: a step's output stands under the name of the step, in the field
`output`. -/
def toValue (c : Context) : Value :=
  .obj [("config", .obj c.config), ("inputs", .obj c.inputs),
    ("steps", .obj (c.outputs.map fun e => (e.1, .obj [("output", e.2)])))]

end Context

end Stepflow
