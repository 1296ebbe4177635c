import Stepflow.Files.Follow
import Stepflow.Shell.Command
import Stepflow.Text.Basic

/-!
# The machine that runs commands

A machine is a world, which all processes share, and the shell that is running. A shell that is started
by another one begins as its copy, so what it changes in itself is lost when it ends; what it changes in
the world stays.

A step of a machine either gives a value or stops what is running, for a reason that says how far.
-/

/-!
## Signals

A signal is a number. Most signals have a name, and a wording for a process that was ended by it; the
command language knows one name less than the rest of the system, and has names for those that are left
to programs.
-/

namespace Stepflow.Shell.Signal

/-- The names of the signals, from the first on. -/
def names : List String :=
  ["HUP", "INT", "QUIT", "ILL", "TRAP", "ABRT", "BUS", "FPE", "KILL", "USR1", "SEGV", "USR2", "PIPE",
    "ALRM", "TERM", "STKFLT", "CHLD", "CONT", "STOP", "TSTP", "TTIN", "TTOU", "URG", "XCPU", "XFSZ",
    "VTALRM", "PROF", "WINCH", "IO", "PWR", "SYS"]

/-- The number of the signal that ends a process kindly. -/
def terminate : Nat := 15

/-- The number of the signal that ends a process whose reader is gone. -/
def pipe : Nat := 13

/-- The number of the signal that ends a process which leaves its part of the memory. -/
def segment : Nat := 11

/-- The first number above all signals. -/
def bound : Nat := 65

/-- The number of the signal that has no name in the command language. -/
def unnamed : Nat := 16

/-- The numbers between which the signals lie that are left to programs. -/
def firstFree : Nat := 34

/-- The last number of a signal that is left to programs. -/
def lastFree : Nat := 64

/-- The name of a signal in the command language; a number stands for itself if it has none, and zero
has the name of the end of a shell. -/
def word (n : Nat) : String :=
  if n = 0 then "EXIT"
  else if n = unnamed then toString n
  else match names[n - 1]? with
    | some name => name
    | none =>
      if n = firstFree then "RTMIN"
      else if n = lastFree then "RTMAX"
      else if firstFree < n && n < firstFree + 16 then "RTMIN+" ++ toString (n - firstFree)
      else if firstFree < n && n < lastFree then "RTMAX-" ++ toString (lastFree - n)
      else toString n

/-- A name in capitals. -/
def capital (name : String) : String := String.ofList (name.toList.map Char.toUpper)

/-- The signal with a name in the command language; capitals and small letters count the same. -/
def ofName? (name : String) : Option Nat :=
  (List.range bound).find? fun n => word n = capital name && n ≠ unnamed

/-- The signal that a word stands for: a number or a name. -/
def ofWord? (w : String) : Option Nat :=
  match w.toList with
  | [] => none
  | cs =>
    if cs.all Char.isDigit then
      let n := cs.foldl (fun n c => n * 10 + (c.toNat - '0'.toNat)) 0
      if n < bound then some n else none
    else ofName? w

/-- The signals that do nothing to a process that does not ask for them. -/
def ignored : List Nat := [17, 18, 23, 28]

/-- The signals that halt a process for a while. -/
def halting : List Nat := [19, 20, 21, 22]

/-- The wordings for processes that were ended by a signal, from the first on. -/
def wordings : List String :=
  ["Hangup", "Interrupt", "Quit", "Illegal instruction", "Trace/breakpoint trap", "Aborted",
    "Bus error", "Floating point exception", "Killed", "User defined signal 1", "Segmentation fault",
    "User defined signal 2", "Broken pipe", "Alarm clock", "Terminated", "Stack fault", "Child exited",
    "Continued", "Stopped (signal)", "Stopped", "Stopped (tty input)", "Stopped (tty output)",
    "Urgent I/O condition", "CPU time limit exceeded", "File size limit exceeded",
    "Virtual timer expired", "Profiling timer expired", "Window changed", "I/O possible",
    "Power failure", "Bad system call"]

/-- The wording for a process that was ended by a signal. -/
def wording (n : Nat) : String :=
  match wordings[n - 1]? with
  | some w => w
  | none =>
    if firstFree ≤ n && n ≤ lastFree then "Real-time signal " ++ toString (n - firstFree)
    else "Unknown signal " ++ toString n

/-- The signals whose wording a shell keeps to itself. -/
def silent : List Nat := [2, 13]

end Stepflow.Shell.Signal

/-! ## Machines -/

/-!
## How a process ends

A process ends of itself, with a number that is zero if it succeeded, or is ended by a signal.
-/

namespace Stepflow.Shell

/-- How a process ended. -/
inductive Exit where
  /-- Of itself, with a number. -/
  | exited (code : Nat)
  /-- By a signal. -/
  | killed (signal : Nat)
  deriving DecidableEq, Inhabited

namespace Exit

/-- Whether a process succeeded. -/
def success : Exit → Bool
  | .exited code => code = 0
  | .killed _ => false

/-- The number with which a process ended, unless it was ended by a signal. -/
def code? : Exit → Option Nat
  | .exited code => some code
  | .killed _ => none

/-- What a shell adds to the number of a signal that ended a process. -/
def signalBase : Nat := 128

/-- The number by which a shell knows an end. -/
def status : Exit → Nat
  | .exited code => code
  | .killed signal => signalBase + signal

/-- The wording of an end. -/
def message : Exit → String
  | .exited code => "exit status: " ++ toString code
  | .killed signal =>
    "signal: " ++ toString signal ++
      match Signal.names[signal - 1]? with
      | some name => " (SIG" ++ name ++ ")"
      | none => ""

end Exit

end Stepflow.Shell

/-!
## Texts of bytes

The command language knows bytes, not characters. A text of bytes is a text in which each byte stands as
the character of the same number; texts come in and go out through `Octets.ofText` and `Octets.toText`.
-/

namespace Stepflow.Shell.Octets

/-- The text of some bytes. -/
def ofBytes (bs : List UInt8) : String := String.ofList (bs.map fun b => Char.ofNat b.toNat)

/-- The bytes of a text. -/
def toBytes (s : String) : List UInt8 := s.toList.map fun c => c.toNat.toUInt8

/-- Takes a text in. -/
def ofText (s : String) : String := ofBytes (Text.bytes s)

/-- Gives a text out; bytes that are no text are replaced. -/
def toText (s : String) : String := Text.lossy (toBytes s)

end Stepflow.Shell.Octets

namespace Stepflow.Shell

/-! ### The world -/

/-- Where a stream leads. -/
inductive Channel where
  /-- To the output of the whole run. -/
  | output
  /-- To the errors of the whole run. -/
  | errors
  /-- Nowhere: there is nothing to read, and what is written is lost. -/
  | nowhere
  /-- To zero bytes without end; what is written is lost. -/
  | zeros
  /-- To a file. -/
  | file (place : List String)
  /-- To what was written and is still to be read. -/
  | pipe (text : String)
  /-- To a directory, which cannot be read as a file. -/
  | directory
  deriving Inhabited

/-- An open stream. -/
structure Stream where
  /-- Where it leads. -/
  channel : Channel
  /-- Whether it can be read. -/
  reads : Bool := false
  /-- Whether it can be written. -/
  writes : Bool := false
  /-- Whether everything written goes to the end of the file. -/
  appends : Bool := false
  /-- The place in the file, as a number of bytes. -/
  position : Nat := 0
  /-- How much may still be written to it, if that is limited. -/
  room : Option Nat := none
  deriving Inhabited

/-- What all processes share. -/
structure Processes where
  /-- The files. -/
  files : Files
  /-- What was written to the output. -/
  output : String := ""
  /-- What was written to the errors. -/
  errors : String := ""
  /-- The streams that were opened. -/
  streams : Array Stream := #[]
  /-- The number that the last process got. -/
  last : Nat

/-! ### Shells -/

/-- A variable of a shell. -/
structure Variable where
  /-- Its value; none if it is only marked. -/
  value : Option String := none
  /-- Whether processes get it. -/
  exported : Bool := false
  /-- Whether it keeps its value. -/
  fixed : Bool := false
  deriving Inhabited

/-- What a shell does when a signal arrives, or when it ends. -/
structure Trap where
  /-- The signal; zero is the end. -/
  signal : Nat
  /-- What is run. -/
  text : String

/-- A shell. -/
structure Session where
  /-- Its name. -/
  name : String := "sh"
  /-- Its arguments. -/
  arguments : List String := []
  /-- The variables that it found. -/
  found : String → Option String := fun _ => none
  /-- The variables that were set or unset since. -/
  ownVariables : List (String × Variable) := []
  /-- What the variables were before the functions that are running, the innermost in front. -/
  hidden : List (List (String × Option Variable)) := []
  /-- The functions. -/
  functions : List (String × Command) := []
  /-- The names that stand for text. -/
  aliases : List (String × String) := []
  /-- The documents in the texts read so far. -/
  documents : Array Word := #[]
  /-- The streams, by their numbers. -/
  streams : List (Nat × Nat) := []
  /-- The letters of the settings that are on. -/
  settings : List Char := []
  /-- What it does when signals arrive. -/
  traps : List Trap := []
  /-- The working directory. -/
  place : List String := []
  /-- The path of the working directory, as it is shown. -/
  directory : String := "/"
  /-- The number with which the last command ended. -/
  status : Nat := 0
  /-- The number before a signal or the end was noticed, while what is to be done then is run. -/
  saved : Option Nat := none
  /-- The number with which the last command inside a word of the present command ended. -/
  wordStatus : Nat := 0
  /-- The line of the present command. -/
  line : Nat := 1
  /-- The command of the shell that is running, which complaints name. -/
  running : Option String := none
  /-- What that command is still to write. -/
  unsaid : String := ""
  /-- The number of loops around the present command. -/
  loops : Nat := 0
  /-- The number of functions that are running. -/
  calls : Nat := 0
  /-- How many shells it stands in. -/
  level : Nat := 0
  /-- The number that `$` stands for. -/
  main : Nat
  /-- The number of the process. -/
  process : Nat
  /-- The number of the last process that was not waited for. -/
  lastJob : Option Nat := none
  /-- The bits that new files do not get. -/
  mask : Nat := 18
  /-- The number of the argument that is taken apart next. -/
  optionIndex : Nat := 1
  /-- How many characters of the one before were taken, if it is not done. -/
  lettersTaken : Option Nat := none
  /-- The names of programs that were looked for and found. -/
  known : List String := []

/-- A process that is not waited for. It is run when something waits for it, or at the end. -/
structure Job where
  /-- The number of the process. -/
  process : Nat
  /-- The shell that runs it. -/
  session : Session
  /-- What it runs. -/
  command : Command
  /-- How it ended, if it has. -/
  ending : Option Exit := none

/-- A machine. -/
structure Machine where
  /-- What all processes share. -/
  world : Processes
  /-- The shell that is running. -/
  session : Session
  /-- The processes that it does not wait for. -/
  jobs : List Job := []
  /-- What the shell that `$` stands for does when signals arrive. -/
  mainTraps : List Trap := []
  /-- The signals that arrived there and were not yet looked at. -/
  arrived : List Nat := []

/-- Why what is running stops. -/
inductive Stop where
  /-- An error, which was told already. -/
  | failed
  /-- The end of the shell. -/
  | ended
  /-- The end of some loops. -/
  | broke (loops : Nat)
  /-- The end of a round of a loop, and of some loops in it. -/
  | continued (loops : Nat)
  /-- The end of a function. -/
  | returned
  /-- The end of a process by a signal. -/
  | killed (process signal : Nat)
  deriving DecidableEq, Inhabited

/-- A step of a machine. -/
abbrev Act := ExceptT Stop (StateM Machine)

namespace Act

/-- What is known of the shell that is running. -/
def session : Act Session := do return (← get).session

/-- Changes the shell that is running. -/
def change (f : Session → Session) : Act Unit := modify fun m => { m with session := f m.session }

/-- What is known of the world. -/
def world : Act Processes := do return (← get).world

/-- Changes the world. -/
def changeWorld (f : Processes → Processes) : Act Unit := modify fun m => { m with world := f m.world }

/-- Changes the files. -/
def setFiles (files : Files) : Act Unit := changeWorld fun w => { w with files }

/-- Sets the number with which the last command ended. -/
def setStatus (status : Nat) : Act Unit := change fun s => { s with status }

/-- Whether a setting is on. -/
def isOn (letter : Char) : Act Bool := do return (← session).settings.contains letter

/-- Runs a step, and then another one, whatever the first comes to. -/
def thenAlways {α : Type} (step : Act α) (after : Act Unit) : Act α := do
  match ← (ExceptT.lift step.run : Act (Except Stop α)) with
  | .ok a =>
    after
    return a
  | .error stop =>
    after
    throw stop

/-- Runs a step and gives its value, or why it stopped. -/
def observe {α : Type} (step : Act α) : Act (Except Stop α) := ExceptT.lift step.run

/-- The number of a new process. -/
def newProcess : Act Nat := do
  let n := (← world).last + 1
  changeWorld fun w => { w with last := n }
  return n

end Act

end Stepflow.Shell
