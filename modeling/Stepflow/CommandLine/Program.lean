import Stepflow.CommandLine.Arguments
import Stepflow.CommandLine.Running
import Stepflow.CommandLine.Views

/-!
# The program

The whole program up to the run of a workflow: its arguments are read, a session is started, and the
command is carried out as far as it needs nothing but the files.
-/

/-!
## Help

The help on the program, or on one of its commands, says what it is for, how it is called, and what each
word and each option is. The lists are in two columns, the second two blanks behind the longest entry of
the first. Options stand in the order of their rank: those of a command and those of all commands are
counted each from the first on, and the counts are merged.
-/

namespace Stepflow.CommandLine

/-- Something that is explained in a list. -/
structure Entry where
  /-- How it is written. -/
  form : String
  /-- What is said of it. -/
  text : String

namespace Help

/-- A heading, and a list of entries below it. -/
def list (heading : String) (entries : List Entry) : String :=
  let width := (entries.map fun e => e.form.length).foldl max 0
  let lines := entries.map fun e =>
    line ("  " ++ e.form ++ String.ofList (List.replicate (width - e.form.length + 2) ' ') ++ e.text)
  line heading ++ String.join lines

/-- What the program is for. -/
def purpose : String :=
  "Workflow definition and execution engine with checkpoints, retries and discovery"

/-- What each command does. -/
def commands : List Entry :=
  [⟨"list", "List discovered workflows"⟩,
    ⟨"show", "Show a workflow's metadata, inputs and steps"⟩,
    ⟨"validate", "Check a workflow document without running it"⟩,
    ⟨"viz", "Render the step graph"⟩,
    ⟨"run", "Run a workflow"⟩,
    ⟨helpWord, "Print this message or the help of the given subcommand(s)"⟩]

/-- The words that a command takes. -/
def words : String → List Entry
  | "show" | "viz" | "run" => [⟨"<WORKFLOW>", "Workflow name or file"⟩]
  | "validate" => [⟨"<FILE>", "Workflow file"⟩]
  | "help" => [⟨"[COMMAND]...", "Print help for the subcommand(s)"⟩]
  | _ => []

/-! ### Options -/

/-- Output as JSON text. -/
def json : Entry := ⟨"    --json", "Output machine-readable JSON"⟩

/-- Unknown components are put off. -/
def lenient : Entry :=
  ⟨"    --lenient", "Defer unknown component references instead of rejecting the workflow"⟩

/-- The directory of the workflows that come with the program, with the value of its variable. -/
def builtinDir (e : Environment) : Entry :=
  ⟨"    --builtin-dir <BUILTIN_DIR>",
    "Directory of builtin workflows (lowest precedence) [env: " ++ builtinDirVariable ++ "=" ++
      (e.valueOf builtinDirVariable).getD "" ++ "]"⟩

/-- The root of the project. -/
def project : Entry := ⟨"    --project <PROJECT>", "Project root (defaults to the current directory)"⟩

/-- More about what is going on. -/
def verbose : Entry := ⟨"-v, --verbose...", "Detailed output (-v for debug, -vv for trace)"⟩

/-- The options that end the reading of the arguments. -/
def ending : List Entry := [⟨"-h, --help", "Print help"⟩, ⟨"-V, --version", "Print version"⟩]

/-- The options of a command, or those in front of one. -/
def options (e : Environment) : Option String → List Entry
  | some "help" => []
  | some "viz" =>
    [⟨"    --format <FORMAT>", "[default: ascii] [possible values: ascii, mermaid]"⟩,
      json, lenient, builtinDir e, project, verbose] ++ ending
  | some "run" =>
    [⟨"-i, --input <KEY=VALUE>", "Input as key=value (repeatable)"⟩,
      json,
      ⟨"    --dry-run", "Check inputs and list the steps without executing them"⟩,
      lenient, builtinDir e,
      ⟨"    --resume <WORKFLOW_ID>", "Resume the run with this id from its latest checkpoint"⟩,
      project, verbose] ++ ending
  | _ => [json, lenient, builtinDir e, project, verbose] ++ ending

/-! ### The whole -/

/-- How the program, or one of its commands, is called. -/
def call : Option String → String
  | none => programName ++ " [OPTIONS] <COMMAND>"
  | some command =>
    let forms := (if command = helpWord then [] else ["[OPTIONS]"]) ++ (words command).map Entry.form
    " ".intercalate (programName :: command :: forms)

/-- The first line of the help. -/
def title : Option String → String
  | none => purpose
  | some command => ((commands.find? fun c => c.form = command).map Entry.text).getD ""

/-- **The help** on the program or on a command. -/
def text (e : Environment) (command : Option String) : String :=
  let named := match command with
    | none => list "Commands:" commands
    | some command => if (words command).isEmpty then "" else list "Arguments:" (words command)
  let options := options e command
  let parts := [line (title command), line ("Usage: " ++ call command), named,
    if options.isEmpty then "" else list "Options:" options]
  "\n".intercalate (parts.filter fun p => p ≠ "")

end Help

/-! ## Commands -/

/-- The version of the program. -/
def programVersion : String := "0.1.0"

/-- The name by which the program, or one of its commands, calls itself. -/
def titleOf : Option String → String
  | none => programName
  | some command => programName ++ "-" ++ command

/-- The number with which the program ends if it is used wrongly. -/
def misuseStatus : Nat := 2

/-- The report of a program that does not get to a command. -/
def Stop.report (e : Environment) : Stop → Report
  | .misuse => { status := misuseStatus, errors := Help.text e none }
  | .help command => { out := Help.text e command }
  | .version command => { out := line (titleOf command ++ " " ++ programVersion) }

/-- **The program**, with its arguments, its environment and the files that there are. -/
def program (arguments : List String) (e : Environment) (t : Files) : Task :=
  match Invocation.ofArguments arguments e with
  | .error stop => .finished (stop.report e)
  | .ok i =>
    match Session.start i.options e t with
    | .error causes => .finished (.failed causes)
    | .ok s => s.task i.command

end Stepflow.CommandLine
