/-!
# Commands

A command is what a text of the command language stands for. Words are not yet values: they are made of
pieces, some of which stand for something else and are replaced when the command is run. A command may
stand inside a word, and words stand inside commands, so the two are one definition.
-/

namespace Stepflow.Shell

/-- What is done with the value of a parameter. The flags `empty` say that an empty value counts as
missing. -/
inductive Use where
  /-- It is taken as it is. -/
  | value
  /-- A missing value is replaced. -/
  | default ( empty : Bool)
  /-- A missing value is replaced, and the parameter set to it. -/
  | assign ( empty : Bool)
  /-- A missing value is an error. -/
  | demand ( empty : Bool)
  /-- A value that is there is replaced. -/
  | alternative ( empty : Bool)
  /-- Its length is taken. -/
  | length
  /-- A part at its start or its end is taken away: the shortest that fits, or the longest. -/
  | trim (atStart longest : Bool)
  /-- Something that is not in the language. -/
  | unknown
  deriving DecidableEq, Inhabited

/-- How a redirection opens a file. -/
inductive Access where
  /-- For reading. -/
  | read
  /-- For writing, from its start. -/
  | write
  /-- For writing, from its start, whatever the settings. -/
  | overwrite
  /-- For writing, at its end. -/
  | append
  /-- For both. -/
  | update
  deriving DecidableEq, Inhabited

mutual

/-- A piece of a word. -/
inductive Piece where
  /-- A character. -/
  | plain (c : Char)
  /-- A character that stands for itself only. -/
  | quoted (c : Char)
  /-- A quotation mark. It says that there is a word, even if there is nothing else in it. -/
  | mark
  /-- The value of a parameter. -/
  | parameter (name : String) (use : Use) (operand : List Piece)
  /-- What a command writes. -/
  | output (c : Command)
  /-- The value of a calculation. -/
  | calculation (text : List Piece)

/-- A redirection of a stream. -/
inductive Redirection where
  /-- To a file. -/
  | file (stream : Nat) (access : Access) (path : List Piece)
  /-- To where another stream leads, or nowhere. -/
  | copy (stream : Nat) (other : List Piece)
  /-- To the document with a number among those in the text of commands. -/
  | document (stream : Nat) (number : Nat)

/-- A command. The numbers are those of the lines in which commands begin. -/
inductive Command where
  /-- Nothing. -/
  | nothing
  /-- A command with words. -/
  | simple (line : Nat) (assignments words : List (List Piece)) (redirections : List Redirection)
  /-- Commands of which each reads what the one before writes. -/
  | pipeline (stages : List Command)
  /-- A command that is not waited for. -/
  | background (c : Command)
  /-- A command whose success counts as failure. -/
  | negation (c : Command)
  /-- A command that is run if another one succeeded. -/
  | both (a b : Command)
  /-- A command that is run if another one failed. -/
  | either (a b : Command)
  /-- A command after another one. -/
  | sequence (a b : Command)
  /-- A command with redirections. -/
  | redirected (line : Nat) (c : Command) (redirections : List Redirection)
  /-- A command in a shell of its own. -/
  | subshell (line : Nat) (c : Command) (redirections : List Redirection)
  /-- A command that is run if another one succeeded, and one that is run otherwise. -/
  | choice (test yes no : Command)
  /-- A command that is run as long as another one succeeds, or fails. -/
  | loop (whileSuccess : Bool) (test body : Command)
  /-- A command that is run for each word. -/
  | each (line : Nat) (name : String) (words : List (List Piece)) (body : Command)
  /-- A command that is run if a word fits. -/
  | cases (line : Nat) (word : List Piece) (arms : List Arm)
  /-- The definition of a function. -/
  | define (line : Nat) (name : String) (body : Command)

/-- Patterns, and what is run if one of them fits. -/
inductive Arm where
  /-- Patterns with a command. -/
  | mk (patterns : List (List Piece)) (body : Command)

end

instance : Inhabited Command := ⟨.nothing⟩

instance : Inhabited Piece := ⟨.mark⟩

/-- A word. -/
abbrev Word := List Piece

namespace Word

/-- The characters of a word that has nothing else in it. -/
def characters? : Word → Option (List Char)
  | [] => some []
  | .plain c :: rest => (characters? rest).map (c :: ·)
  | _ :: _ => none

/-- The text of a word that is nothing but unquoted characters. -/
def text? (w : Word) : Option String := (characters? w).map String.ofList

/-- The text of a word in which quotation marks count as nothing and replacements are left out. -/
def bare : Word → List Char
  | [] => []
  | .plain c :: rest | .quoted c :: rest => c :: bare rest
  | _ :: rest => bare rest

/-- The word that stands for all arguments. -/
def arguments : Word := [.mark, .parameter "@" .value [], .mark]

end Word

namespace Name

/-- Whether a character may begin a name. -/
def isStart (c : Char) : Bool := ('a' ≤ c && c ≤ 'z') || ('A' ≤ c && c ≤ 'Z') || c = '_'

/-- Whether a character may stand in a name. -/
def isPart (c : Char) : Bool := isStart c || c.isDigit

/-- Whether characters are a name. -/
def isName : List Char → Bool
  | [] => false
  | c :: rest => isStart c && rest.all isPart

end Name

/-- Whether a word begins with a name and an equals sign. -/
def Word.isAssignment (w : Word) : Bool :=
  let name := w.takeWhile fun
    | .plain c => Name.isPart c
    | _ => false
  match name, w.drop name.length with
  | .plain c :: _, .plain '=' :: _ => Name.isStart c
  | _, _ => false

end Stepflow.Shell
