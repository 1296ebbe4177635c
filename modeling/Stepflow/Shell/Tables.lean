import Stepflow.Shell.Condition
import Stepflow.Shell.Format
import Stepflow.Shell.Own.Control
import Stepflow.Shell.Own.Places
import Stepflow.Shell.Own.Variables
import Stepflow.Shell.Program.Columns
import Stepflow.Shell.Program.Editing
import Stepflow.Shell.Program.Launching
import Stepflow.Shell.Program.Letters
import Stepflow.Shell.Program.Listing
import Stepflow.Shell.Program.Reckoning
import Stepflow.Shell.Program.Selecting
import Stepflow.Shell.Program.Sorting

/-!
# Commands by their names

The commands of the shell itself, and the programs.
-/

/-!
## The shell's own commands

Here are those that need not run other commands.
-/

namespace Stepflow.Shell.Own

/-- Writes words with a blank between them, and an end of line unless the first word says otherwise. -/
def echoCommand (arguments : List String) : Act Nat := do
  match arguments with
  | "-n" :: words => write words false
  | words => write words true
where
  /-- Writes words; escapes in them stand for characters, and one ends the output. -/
  write (words : List String) (line : Bool) : Act Nat := do
    let pieces := words.map Escapes.expandText
    let shown := pieces.takeWhile fun p => !p.2
    let last := (pieces.drop shown.length).head?
    Act.say (" ".intercalate ((shown ++ last.toList).map Prod.fst))
    if line && last.isNone then Act.say "\n"
    return 0

/-- Writes a format with arguments. -/
def printfCommand (arguments : List String) : Act Nat := do
  match ← noOptions arguments with
  | [] => Act.raise "usage: printf format [arg ...]"
  | format :: arguments => Format.print format arguments

/-- The number for a condition. -/
def truthStatus (holds : Bool) : Nat := if holds then 0 else 1

/-- Tells whether a condition holds. -/
def testCommand (arguments : List String) : Act Nat := do
  return truthStatus (← Condition.holds arguments)

/-- Tells whether a condition between brackets holds. -/
def bracketCommand (arguments : List String) : Act Nat := do
  if arguments.getLast? ≠ some "]" then Act.raise "missing ]"
  testCommand arguments.dropLast

/-- A command of the shell that need not run others. -/
def command? (name : String) : Option (List String → Act Nat) :=
  match name with
  | ":" | "true" => some fun _ => return 0
  | "false" => some fun _ => return 1
  | "echo" => some echoCommand
  | "printf" => some printfCommand
  | "test" => some testCommand
  | "[" => some bracketCommand
  | "exit" => some exitCommand
  | "return" => some returnCommand
  | "break" => some (endLoops .broke)
  | "continue" => some (endLoops .continued)
  | "cd" | "chdir" => some cdCommand
  | "pwd" => some pwdCommand
  | "umask" => some umaskCommand
  | "export" => some exportCommand
  | "readonly" => some readonlyCommand
  | "local" => some localCommand
  | "unset" => some unsetCommand
  | "set" => some setCommand
  | "shift" => some shiftCommand
  | "read" => some readCommand
  | "getopts" => some getoptsCommand
  | "alias" => some aliasCommand
  | "unalias" => some unaliasCommand
  | "type" => some typeCommand
  | "command" => some commandCommand
  | "hash" => some hashCommand
  | "trap" => some trapCommand
  | "kill" => some killCommand
  | "times" => some timesCommand
  | "ulimit" => some ulimitCommand
  | "jobs" => some jobsCommand
  | "fg" | "bg" => some resumeCommand
  | _ => none

end Stepflow.Shell.Own

/-!
## The programs

Each program has a name. Some of them start others, and are given a way to do so.
-/

namespace Stepflow.Shell.Program

/-- What the program with a name does. -/
def body (launch : Launcher) (name : String) : Body :=
  match name with
  | "[" => bracket
  | "basename" => Basename.program
  | "cat" => Cat.program
  | "chmod" => Mode.program
  | "cp" => Transfer.copy
  | "cut" => Cut.program
  | "dirname" => dirname
  | "echo" => Echo.program
  | "env" => Env.program launch
  | "expr" => Reckon.program
  | "false" => fun _ => return 1
  | "find" => Find.program
  | "fold" => Fold.program
  | "grep" => Select.program
  | "head" => Part.head
  | "ls" => Listed.program
  | "mkdir" => Directory.makeProgram
  | "mv" => Transfer.move
  | "nice" | "nohup" => nice launch
  | "nl" => Numbering.program
  | "paste" => Paste.program
  | "printenv" => printenv
  | "printf" => printf
  | "pwd" => pwd
  | "realpath" => realpath
  | "rev" => rev
  | "rm" => Remove.program
  | "rmdir" => Directory.removeProgram
  | "sed" => Edit.program
  | "seq" => Sequence.program
  | "sleep" => sleep
  | "sort" => Sorted.program
  | "tac" => tac
  | "tail" => Part.tail
  | "tee" => tee
  | "test" => test
  | "touch" => touch
  | "tr" => Letters.program
  | "uname" => uname
  | "uniq" => Unique.program
  | "wc" => Count.program
  | "which" => which
  | "whoami" => whoami
  | "xargs" => Xargs.program launch
  | "yes" => yes
  | _ => fun _ => return 0

end Stepflow.Shell.Program
