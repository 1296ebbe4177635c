import Stepflow.Step.Basic
import Stepflow.Workflow.Basic

/-!
# Flowcharts

A flowchart has a node for each step at any depth, a start and an end. A list of steps is drawn one
behind another: every exit of a step leads to the entry of the next one. A branch leads to each of
its options and is left where an option is left, and so is a group by its members. A validation leads
to its fix and the fix back to it. Whatever fails leads to its fallback, and is left where that is
left.

A chart is a list of statements, each of which declares a node or draws an edge. Nodes are numbered
in the order of their declaration. `Statement.text` writes a statement in the Mermaid language.
-/

namespace Stepflow

namespace Flowchart

/-- The number of a node. -/
abbrev Node := Nat

/-- How a node is drawn. -/
inductive Shape where
  /-- The start of a workflow. -/
  | start
  /-- The end of a workflow. -/
  | finish
  /-- A step without alternatives. -/
  | box
  /-- A branch. -/
  | choice
  /-- A group. -/
  | group
  deriving DecidableEq, Repr

/-- A line of a chart. -/
inductive Statement where
  /-- Declares a node. -/
  | node (id : Node) (shape : Shape) (caption : String)
  /-- Draws an edge; the dotted ones are taken only after a failure. -/
  | edge (source target : Node) (label : Option String) (dotted : Bool)
  deriving DecidableEq, Repr

/-- A piece of a chart: its statements, where it is entered and left, and the first number that no
node of it has. -/
structure Fragment where
  /-- The statements, in order. -/
  statements : List Statement
  /-- The node at which the piece is entered. -/
  entry : Node
  /-- The nodes from which the piece is left. -/
  exits : List Node
  /-- The first free number. -/
  next : Node

/-- The pieces below a node: statements, where they are left, and the first free number. -/
structure Branches where
  /-- The statements, in order. -/
  statements : List Statement
  /-- The nodes from which the pieces are left. -/
  exits : List Node
  /-- The first free number. -/
  next : Node

/-- The caption of the node of a step. -/
def caption (s : Step) : String := s.name ++ "<br/>" ++ s.summary ++ s.remarkText

/-- The shape of the node of a step. -/
def shapeOf : StepKind Step → Shape
  | .branch _ => .choice
  | .parallel _ => .group
  | .call .. | .agent .. | .generate .. | .validate .. | .subworkflow .. => .box

/-- Whether a step is left from its own node and not from the steps inside it. -/
def leavesItself : StepKind Step → Bool
  | .branch _ | .parallel _ => false
  | .call .. | .agent .. | .generate .. | .validate .. | .subworkflow .. => true

/-- Hangs a piece below a node. -/
def hang (id : Node) (label : Option String) (piece : Fragment) (rest : Branches) : Branches where
  statements := piece.statements ++ .edge id piece.entry label false :: rest.statements
  exits := piece.exits ++ rest.exits
  next := rest.next

mutual

/-- The chart of a step whose node has the number `id`. -/
def step (id : Node) : Step → Fragment
  | ⟨name, kind, condition, retryPolicy, onError, skipOnError, rollback, checkpoint⟩ =>
    let s : Step :=
      ⟨name, kind, condition, retryPolicy, onError, skipOnError, rollback, checkpoint⟩
    let inside := inner id (id + 1) kind
    let fallback := fallbackOf id inside.next onError
    { statements := .node id (shapeOf kind) (caption s) :: (inside.statements ++ fallback.statements)
      entry := id
      exits := (if leavesItself kind then [id] else inside.exits) ++ fallback.exits
      next := fallback.next }

/-- What hangs below the node of a step because of its kind. -/
def inner (id next : Node) : StepKind Step → Branches
  | .validate _ _ fix => fixOf id next fix
  | .branch choices => options id next choices
  | .parallel steps => members id next steps
  | .call .. | .agent .. | .generate .. | .subworkflow .. => ⟨[], [], next⟩

/-- The fix of a validation leads back to it. -/
def fixOf (id next : Node) : Option Step → Branches
  | none => ⟨[], [], next⟩
  | some s =>
    let piece := step next s
    ⟨piece.statements ++ .edge id piece.entry (some "fail") true ::
      piece.exits.map fun e => .edge e id (some "re-validate") true, [], piece.next⟩

/-- The fallback of a step. -/
def fallbackOf (id next : Node) : Option Step → Branches
  | none => ⟨[], [], next⟩
  | some s =>
    let piece := step next s
    ⟨piece.statements ++ [.edge id piece.entry (some "error") true], piece.exits, piece.next⟩

/-- The options of a branch, each behind an edge labelled with its condition. -/
def options (id next : Node) : List (BranchOption Step) → Branches
  | [] => ⟨[], [], next⟩
  | ⟨condition, s⟩ :: rest =>
    let piece := step next s
    hang id (some condition.raw) piece (options id piece.next rest)

/-- The members of a group. -/
def members (id next : Node) : List Step → Branches
  | [] => ⟨[], [], next⟩
  | s :: rest =>
    let piece := step next s
    hang id none piece (members id piece.next rest)

end

/-- Plain edges from some nodes to one. -/
def join (sources : List Node) (target : Node) : List Statement :=
  sources.map fun e => .edge e target none false

/-- Steps one behind another, entered from the given nodes. -/
def sequence (entries : List Node) (next : Node) : List Step → Branches
  | [] => ⟨[], entries, next⟩
  | s :: rest =>
    let piece := step next s
    let after := sequence piece.exits piece.next rest
    ⟨piece.statements ++ join entries piece.entry ++ after.statements, after.exits, after.next⟩

/-- A caption with its quotes replaced by their name. -/
def escape (caption : String) : String :=
  String.ofList (caption.toList.flatMap fun c => if c = '"' then "#quot;".toList else [c])

/-- What surrounds the caption of a node of a shape. -/
def Shape.brackets : Shape → String × String
  | .start => ("([", "])")
  | .finish => ("((", "))")
  | .box => ("[", "]")
  | .choice => ("\x7b", "\x7d")
  | .group => ("[/", "/]")

/-- The name of a node. -/
def nodeName (id : Node) : String := "n" ++ toString id

/-- The text of a statement. -/
def Statement.text : Statement → String
  | .node id shape caption =>
    "    " ++ nodeName id ++ shape.brackets.1 ++ "\"" ++ escape caption ++ "\"" ++ shape.brackets.2
  | .edge source target label dotted =>
    "    " ++ nodeName source ++ (if dotted then " -.->" else " -->") ++
      (label.map fun l => "|\"" ++ escape l ++ "\"|").getD "" ++ " " ++ nodeName target

end Flowchart

/-- The flowchart of a workflow. -/
def Workflow.flowchart (w : Workflow) : List Flowchart.Statement :=
  let body := Flowchart.sequence [0] 1 w.steps
  .node 0 .start w.name :: (body.statements ++
    .node body.next .finish "end" :: Flowchart.join body.exits body.next)

/-- The text of the flowchart of a workflow. -/
def Workflow.mermaid (w : Workflow) : String :=
  String.join (("flowchart TD" :: w.flowchart.map Flowchart.Statement.text).map (· ++ "\n"))

end Stepflow
