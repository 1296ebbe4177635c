import Stepflow.Workflow.Codec

/-!
# The metadata of a workflow

Name, version, description and the names of the inputs, read from a document without looking at its
steps. The document is read as YAML text, whatever it begins with.
-/

namespace Stepflow

/-- What a document says about itself. -/
structure Metadata where
  /-- The name of the workflow. -/
  name : String
  /-- Its version. -/
  version : String
  /-- What it is for. -/
  description : String
  /-- The names of its inputs, in order. -/
  inputs : List String
  deriving DecidableEq, Repr

namespace Metadata

/-- The parts of a document that its metadata are read from. -/
def reach : Yaml.Reach :=
  .only [("name", .all), ("version", .all), ("description", .all), ("inputs", .each .nothing)]

/-- Reads metadata. -/
def ofItem? (i : Item) : Option Metadata := do
  let fields ← i.record? ["name", "version", "description", "inputs"]
  let name ← Item.required? fields "name" Item.text?
  let version ← Item.required? fields "version" Workflow.version?
  let description ← Item.field? fields "description" "" Item.text?
  let inputs ← Item.field? fields "inputs" [] (Item.table? fun _ => some ())
  some { name, version, description, inputs := Table.names inputs }

/-- Reads the metadata of a document. -/
def ofText? (text : String) : Option Metadata := (Yaml.toItem? reach text.toList).bind ofItem?

/-- The object of metadata. -/
def toValue (m : Metadata) : Value :=
  .obj [("name", .str m.name), ("version", .str m.version), ("description", .str m.description),
    ("inputs", .arr (m.inputs.map .str))]

end Metadata

end Stepflow
