/-!
# What a shell knows by name

The settings of a shell, and the commands that it can run.
-/

/-!
## Settings of a shell

A setting is on or off. It has a letter, or a name, or both.
-/

namespace Stepflow.Shell.Setting

/-- The settings, by their names, with their letters. -/
def all : List (String × Option Char) :=
  [("errexit", some 'e'), ("noglob", some 'f'), ("ignoreeof", some 'I'), ("interactive", some 'i'),
    ("monitor", some 'm'), ("noexec", some 'n'), ("stdin", some 's'), ("xtrace", some 'x'),
    ("verbose", some 'v'), ("vi", some 'V'), ("emacs", some 'E'), ("noclobber", some 'C'),
    ("allexport", some 'a'), ("notify", some 'b'), ("nounset", some 'u'), ("privileged", some 'p'),
    ("nolog", none), ("debug", none)]

/-- The letters. -/
def letters : List Char := all.filterMap Prod.snd

/-- Turns a letter on or off. -/
def turn (settings : List Char) (letter : Char) (on : Bool) : List Char :=
  let others := settings.filter (· ≠ letter)
  if on then letter :: others else others

/-- Whether a setting is on. -/
def isOn (settings : List Char) : String × Option Char → Bool
  | (_, some letter) => settings.contains letter
  | (_, none) => false

/-- How wide the names of settings are shown. -/
def nameWidth : Nat := 16

/-- The text that shows the settings. -/
def table (settings : List Char) : String :=
  "Current option settings\n" ++ String.join (all.map fun s =>
    s.1 ++ String.ofList (List.replicate (nameWidth - s.1.length) ' ') ++
      (if isOn settings s then "on\n" else "off\n"))

/-- The commands that make the settings. -/
def commands (settings : List Char) : String :=
  String.join (all.map fun s => "set " ++ (if isOn settings s then "-o " else "+o ") ++ s.1 ++ "\n")

end Stepflow.Shell.Setting

/-!
## The names that are known

The names of the commands that a shell runs itself, and those of the programs that it can start, with
the directories in which they stand.
-/

namespace Stepflow.Shell

/-- The commands of the shell that belong to the language. -/
def specialCommands : List String :=
  [".", ":", "break", "continue", "eval", "exec", "exit", "export", "local", "readonly", "return", "set",
    "shift", "times", "trap", "unset"]

/-- The other commands of the shell. -/
def regularCommands : List String :=
  ["[", "alias", "bg", "cd", "chdir", "command", "echo", "false", "fg", "getopts", "hash", "jobs", "kill",
    "printf", "pwd", "read", "test", "true", "type", "ulimit", "umask", "unalias", "wait"]

/-- The commands whose arguments may be assignments. -/
def assigningCommands : List String := ["alias", "export", "local", "readonly"]

/-- The names of the programs. -/
def programs : List String :=
  ["[", "basename", "cat", "chmod", "cp", "cut", "dirname", "echo", "env", "expr", "false", "find", "fold",
    "grep", "head", "ls", "mkdir", "mv", "nice", "nl", "nohup", "paste", "printenv", "printf", "pwd",
    "realpath", "rev", "rm", "rmdir", "sed", "seq", "sh", "sleep", "sort", "tac", "tail", "tee", "test",
    "touch", "tr", "true", "uname", "uniq", "wc", "which", "whoami", "xargs", "yes"]

/-- The directories in which the programs stand. -/
def programPlaces : List (List String) := [["bin"], ["usr", "bin"]]

/-- The program at a place. -/
def programAt? (place : List String) : Option String :=
  match place.getLast? with
  | some name =>
    if programPlaces.contains place.dropLast && programs.contains name then some name else none
  | none => none

end Stepflow.Shell
