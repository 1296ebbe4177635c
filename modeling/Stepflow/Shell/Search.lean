import Stepflow.Shell.Reader
import Stepflow.Shell.Variables
import Stepflow.Shell.Vocabulary

/-!
# Finding and starting commands

The first word of a command names a function, a command of the shell itself, or a program. A program is
looked for in the directories of a list, unless its name is a path, and is run as a process of its own.
-/

namespace Stepflow.Shell

/-- What a name of a command stands for. -/
inductive Found where
  /-- A command of the shell; the flag says that it belongs to the language. -/
  | own (special : Bool)
  /-- A function. -/
  | function (body : Command)
  /-- A program, and its path. -/
  | program (name path : String)
  /-- Nothing that can be run. -/
  | nothing (t : Trouble)
  deriving Inhabited

namespace Search

/-- The directories that are looked through if nothing else is said. -/
def usualPath : String := "/usr/local/sbin:/usr/local/bin:/usr/sbin:/usr/bin:/sbin:/bin"

/-- The directories in a list of them. -/
def directories (path : String) : List String :=
  (Text.splitAt ':' path.toList).map String.ofList

/-- What stands at the path of a program. -/
def atPath (path : String) : Act (Except Trouble String) := do
  match programAt? (← Act.placeOf path) with
  | some program => return .ok program
  | none =>
    match ← Act.find path with
    | .ok _ => return .error .forbidden
    | .error t => return .error (if t.isMissing then .obstacle .missing else t)

/-- Looks for a program in directories. Something that cannot be run is remembered. -/
def inDirectories (name : String) : List String → Trouble → Act Found
  | [], trouble => return .nothing trouble
  | d :: rest, trouble => do
    let path := if d = "" then name else d ++ "/" ++ name
    match ← atPath (if d = "" then "./" ++ name else path) with
    | .ok program => return .program program path
    | .error .forbidden => inDirectories name rest .forbidden
    | .error _ => inDirectories name rest trouble

/-- Whether a name is a path. -/
def isPath (name : String) : Bool := name.toList.contains '/'

/-- Looks for a program. -/
def program (path name : String) : Act Found := do
  if isPath name then
    match ← atPath name with
    | .ok program => return .program program name
    | .error t => return .nothing t
  else if name = "" then return .nothing (.obstacle .missing)
  else inDirectories name (directories path) (.obstacle .missing)

/-- Notes that a program was found under a name. -/
def remember (name : String) : Act Unit :=
  Act.change fun s =>
    if isPath name || s.known.contains name then s else { s with known := s.known ++ [name] }

/-- The directories to look through. -/
def path : Act String := Act.value "PATH"

/-- Looks for what a name stands for; functions are passed over if `functions` is not set. -/
def command (name : String) (functions : Bool) (usual : Bool) : Act Found := do
  let s ← Act.session
  match (if functions then s.functions.lookup name else none) with
  | some body => return .function body
  | none =>
    if specialCommands.contains name then return .own true
    else if regularCommands.contains name then return .own false
    else
      let directories ← if usual then pure usualPath else path
      let found ← program directories name
      if let .program .. := found then if !usual then remember name
      return found

/-- The wording of a trouble with a program. -/
def reason (t : Trouble) : String := if t.isMissing then "not found" else t.reason

/-! ### Descriptions -/

/-- The text of a name that stands for other text. -/
def aliasText (name text : String) : String := name ++ "=" ++ singleQuoted text

/-- Tells what a name stands for, in words or briefly; gives the number with which the command ends. -/
def describe (name : String) (inWords usual : Bool) : Act Nat := do
  let s ← Act.session
  let say (words brief : String) : Act Nat := do
    Act.say ((if inWords then name ++ words else brief) ++ "\n")
    return 0
  if Token.reservedWords.contains name then say " is a shell keyword" name
  else if let some text := s.aliases.lookup name then
    say (" is an alias for " ++ text) ("alias " ++ aliasText name text)
  else
    let known := !usual && s.known.contains name
    match ← command name true usual with
    | .own true => say " is a special shell builtin" name
    | .own false => say " is a shell builtin" name
    | .function _ => say " is a shell function" name
    | .program _ path => say (" is" ++ (if known then " a tracked alias for" else "") ++ " " ++ path) path
    | .nothing _ =>
      if inWords then Act.say (name ++ ": not found\n")
      return 127

end Search

end Stepflow.Shell

/-!
## Processes

A process shares the world with all others and nothing else. A shell inside another one begins as its
copy; a shell that is started as a program gets only what all programs get.
-/

namespace Stepflow.Shell

namespace Exit

/-- The first number above those with which a process can end. -/
def bound : Nat := 256

/-- The end with a number, of which only the last byte is kept. -/
def ofStatus (n : Nat) : Exit := .exited (n % bound)

end Exit

namespace Act

/-- Tells that a process was ended by a signal. -/
def tell (e : Exit) : Act Unit := do
  if let .killed signal := e then
    if !Signal.silent.contains signal then putError (Signal.wording signal ++ "\n")

/-- Runs something as a process of its own, under a name. -/
def asProcess (name : String) (body : Act Nat) : Act Exit := do
  let process ← newProcess
  let before ← session
  change fun s => { s with process, running := some name }
  let result ← observe body
  let status := (← session).status
  change fun _ => before
  match result with
  | .ok n => return .ofStatus n
  | .error (.killed p signal) =>
    if p = process then return .killed signal else throw (.killed p signal)
  | .error _ => return .ofStatus status

end Act

namespace Session

/-- A shell that begins as a copy of another one. -/
def child (s : Session) (process : Nat) : Session :=
  { s with
    process
    level := s.level + 1
    traps := s.traps.filter fun t => t.text = ""
    saved := none }

/-- The variables that every shell has. -/
def initialVariables (found : String → Option String) (directory : String) :
    List (String × Variable) :=
  let path := if (found "PATH").isSome then [] else
    [("PATH", { value := some Search.usualPath : Variable })]
  [("IFS", { value := some " \t\n" }), ("OPTIND", { value := some "1" }),
    ("PPID", { value := some "1" }), ("PS1", { value := some "# " }), ("PS2", { value := some "> " }),
    ("PS4", { value := some "+ " }), ("PWD", { value := some directory, exported := true })] ++ path

/-- A shell that is started as a program by another one, with its name and its arguments. -/
def fresh (s : Session) (process : Nat) (name : String) (arguments : List String) : Session :=
  { name, arguments, process
    main := process
    found := s.exported
    streams := s.streams
    place := s.place
    directory := s.directory
    mask := s.mask
    traps := s.traps.filter fun t => t.text = ""
    ownVariables := initialVariables s.exported s.directory }

end Session

/-! ### Starting a shell as a program -/

/-- What a shell that is started as a program runs. -/
inductive Script where
  /-- A text. -/
  | text (s : String)
  /-- The file at a path. -/
  | file (path : String)
  /-- What it reads. -/
  | input

/-- How a shell is started as a program. -/
structure Start where
  /-- What it runs. -/
  script : Script
  /-- Its name. -/
  name : String := "sh"
  /-- Its arguments. -/
  arguments : List String := []
  /-- The letters of the settings that are on. -/
  settings : List Char := []

namespace Start

/-- The letters of options that say what is run, or nothing. -/
def scriptLetters : List Char := ['c', 's', 'l']

/-- What the arguments behind the options say. -/
def ofOthers (settings : List Char) : (hasText : Bool) → List String → Except String Start
  | true, [] => .error "-c requires an argument"
  | true, [text] => .ok { script := .text text, settings }
  | true, text :: name :: arguments => .ok { script := .text text, name, arguments, settings }
  | false, [] => .ok { script := .input, settings }
  | false, path :: arguments => .ok { script := .file path, name := path, arguments, settings }

/-- What arguments say; `hasText` says that what is run is an argument. -/
def ofArguments (settings : List Char) (hasText : Bool) : List String → Except String Start
  | [] => ofOthers settings hasText []
  | a :: rest =>
    match a.toList with
    | ['-', '-'] => ofOthers settings hasText rest
    | '-' :: c :: cs =>
      match (c :: cs).find? fun c => !(scriptLetters.contains c || Setting.letters.contains c) with
      | some bad => .error ("Illegal option -" ++ String.singleton bad)
      | none =>
        ofArguments (settings ++ (c :: cs).filter fun c => !scriptLetters.contains c)
          (hasText || (c :: cs).contains 'c') rest
    | _ => ofOthers settings hasText (a :: rest)

end Start

end Stepflow.Shell
