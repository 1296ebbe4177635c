import Stepflow.Json.Printer
import Stepflow.Registry.Basic
import Stepflow.Run.Request
import Stepflow.Shell.Evaluation

/-!
# Built-in callables

Two callables come with the library. `echo` gives back what it is given. `shell` runs a command and
tells what it wrote and how it ended; an end without success is a failure, unless the caller says that
it is not to be checked.
-/

namespace Stepflow

/-- The callables that come with the library. -/
inductive Builtin where
  /-- Runs a command. -/
  | shell
  /-- Gives back what it is given. -/
  | echo
  deriving DecidableEq, Repr

namespace Builtin

/-- All of them, in the order in which they are registered. -/
def all : List Builtin := [.shell, .echo]

/-- The name under which one is registered. -/
def name : Builtin → String
  | .shell => "shell"
  | .echo => "echo"

/-- What `echo` gives back: its message, its only argument, or all that it was given. -/
def echoed (args : List Value) (kwargs : Fields) : Value :=
  match args with
  | [] => (kwargs.get? "message").getD (.obj kwargs)
  | [v] => v
  | _ => .arr args

/-- The command that `shell` is given. -/
def command (args : List Value) (kwargs : Fields) : Except String String :=
  match (kwargs.get? "command").orElse fun _ => args.head? with
  | some (.str command) => .ok command
  | some other => .error ("shell: 'command' must be a string, got " ++ other.compact)
  | none => .error "shell: missing 'command'"

/-- Whether an end without success is a failure. -/
def isChecked (kwargs : Fields) : Bool :=
  match kwargs.get? "check" with
  | some (.bool b) => b
  | _ => true

/-- What `shell` tells of a run, or why it counts as failed. -/
def told (checked : Bool) (command : String) (r : Shell.Result) : Except String Value :=
  if checked && !r.exit.success then
    .error ("command '" ++ command ++ "' exited with status " ++ r.exit.message ++ ": " ++
      String.ofList (Text.trim r.errors.toList))
  else
    .ok (.obj [("exit_code", ((r.exit.code?).map fun n => Value.int n).getD .null),
      ("stderr", .str r.errors), ("stdout", .str r.out)])

/-- The path of the directory in which a command is to run, if one is given. -/
def directory? (kwargs : Fields) : Option String :=
  match kwargs.get? "cwd" with
  | some (.str path) => some path
  | _ => none

/-- The number of bytes that a command may not reach. -/
def commandLimit : Nat := 131072

/-- The environment in which a command runs, or why it cannot run. -/
def environment (e : Environment) (t : Files) (kwargs : Fields) (command : String) :
    Except String Environment := do
  let path := (directory? kwargs).getD "."
  if (command ++ path).toList.contains '\x00' then throw "nul byte found in provided data"
  let place ← (t.followTo e.place path).mapError Obstacle.message
  let _ ← (t.readDir place).mapError Obstacle.message
  if command.utf8ByteSize ≥ commandLimit then throw "Argument list too long (os error 7)"
  return if (directory? kwargs).isSome then { e with directory := FilePath.absolute place, place } else e

/-- **Runs a command** with the arguments of a call. -/
def runShell (e : Environment) (t : Files) (args : List Value) (kwargs : Fields) :
    Except String Value × Files :=
  match command args kwargs with
  | .error message => (.error message, t)
  | .ok command =>
    match environment e t kwargs command with
    | .error reason => (.error ("failed to spawn shell for '" ++ command ++ "': " ++ reason), t)
    | .ok e =>
      let r := Shell.run e t command
      (told (isChecked kwargs) command r, r.files)

/-- Calls one with arguments. -/
def call (e : Environment) (t : Files) (args : List Value) (kwargs : Fields) :
    Builtin → Except String Value × Files
  | .shell => runShell e t args kwargs
  | .echo => (.ok (echoed args kwargs), t)

/-- What a built-in callable does at a call. -/
def perform (e : Environment) (b : Builtin) (input : Input) (t : Files) : Performance :=
  match input with
  | .arguments args kwargs =>
    let (reply, files) := b.call e t args kwargs
    { reply := reply.map fun output => { output }, files := some files }
  | input => { reply := .ok { output := input.toValue } }

end Builtin

namespace Registry

variable {κ : Type}

/-- Registers components in order, up to the first whose name is taken. -/
def registerAll (r : Registry κ) (space : Namespace) :
    List (String × κ) → Except RegistryError Unit × Registry κ
  | [] => (.ok (), r)
  | (name, c) :: rest =>
    match r.register space name c with
    | .ok r => r.registerAll space rest
    | .error e => (.error e, r)

/-- Registers the callables that come with the library. -/
def registerBuiltins (r : Registry κ) (embed : Builtin → κ) :
    Except RegistryError Unit × Registry κ :=
  r.registerAll .callables (Builtin.all.map fun b => (b.name, embed b))

end Registry

end Stepflow
