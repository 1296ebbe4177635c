import Stepflow.Files.Follow
import Stepflow.Text.Basic

/-!
# Arguments

The arguments of the program are options and words. The first word names the command; options that
belong to every command may stand in front of it or behind it. An option is written with two dashes
and its name, and some also with one dash and a letter; letters may share a dash. What an option is
set to follows an equals sign or stands in the next argument, and for a letter also directly behind
it. Behind two dashes alone everything is a word.

`CommandLine.Invocation.ofArguments` reads the arguments up to the first that is out of place.
-/

namespace Stepflow.CommandLine

open Text

/-- The shape in which a workflow is drawn. -/
inductive Drawing where
  /-- An outline. -/
  | ascii
  /-- A flowchart. -/
  | mermaid
  deriving DecidableEq, Repr

/-- The shape that a word names. -/
def Drawing.ofWord? : String → Option Drawing
  | "ascii" => some .ascii
  | "mermaid" => some .mermaid
  | _ => none

/-- What the program is to do. -/
inductive Command where
  /-- List the workflows that are found. -/
  | list
  /-- Show a workflow in detail. -/
  | detail (target : String)
  /-- Check the document in a file. -/
  | validate (file : String)
  /-- Draw a workflow. -/
  | viz (target : String) (drawing : Drawing)
  /-- Run a workflow: with inputs as they are written, only for show, or from a checkpoint on. -/
  | run (target : String) (inputs : List String) (dryRun : Bool) (resume : Option String)

/-- What holds for every command. -/
structure Options where
  /-- Whether the output is JSON text. -/
  json : Bool := false
  /-- Whether unknown components are put off. -/
  lenient : Bool := false
  /-- The directory of the workflows that come with the program. -/
  builtinDir : Option String := none
  /-- The root of the project. -/
  project : Option String := none

/-- What the program is asked. -/
structure Invocation where
  /-- What holds for every command. -/
  options : Options
  /-- What it is to do. -/
  command : Command

/-- Why the program does not get to a command. -/
inductive Stop where
  /-- It is used wrongly. -/
  | misuse
  /-- It is asked for help, about a command or in general. -/
  | help (command : Option String)
  /-- It is asked for its version, by the name of a command or in general. -/
  | version (command : Option String)
  deriving DecidableEq, Repr

/-- The options that are there or not. -/
inductive Flag where
  /-- Output as JSON text. -/
  | json
  /-- Unknown components are put off. -/
  | lenient
  /-- More about what is going on. -/
  | verbose
  /-- Only for show. -/
  | dryRun
  /-- Help. -/
  | help
  /-- The version. -/
  | version
  deriving DecidableEq, Repr

/-- The options that are set to something. -/
inductive Setting where
  /-- The directory of the workflows that come with the program. -/
  | builtinDir
  /-- The root of the project. -/
  | project
  /-- The shape of a drawing. -/
  | format
  /-- An input of a run. -/
  | input
  /-- The run to resume. -/
  | resume
  deriving DecidableEq, Repr

/-- The commands by their names, with the number of words that each takes. -/
def commandNames : List (String × Nat) :=
  [("list", 0), ("ls", 0), ("show", 1), ("validate", 1), ("viz", 1), ("run", 1)]

/-- The word that asks for help, in place of the name of a command. -/
def helpWord : String := "help"

/-- The name of a command that may also be called by another one. -/
def properName (name : String) : String := if name = "ls" then "list" else name

/-- The flag of a name, for a command or in front of it. -/
def flag? (command : Option String) : String → Option Flag
  | "json" => some .json
  | "lenient" => some .lenient
  | "verbose" => some .verbose
  | "help" => some .help
  | "version" => some .version
  | "dry-run" => if command = some "run" then some .dryRun else none
  | _ => none

/-- The setting of a name, for a command or in front of it. -/
def setting? (command : Option String) : String → Option Setting
  | "builtin-dir" => some .builtinDir
  | "project" => some .project
  | "format" => if command = some "viz" then some .format else none
  | "input" => if command = some "run" then some .input else none
  | "resume" => if command = some "run" then some .resume else none
  | _ => none

/-- The flag of a letter. -/
def letterFlag? : Char → Option Flag
  | 'v' => some .verbose
  | 'h' => some .help
  | 'V' => some .version
  | _ => none

/-- Whether a setting takes a text. -/
def Setting.accepts (s : Setting) (text : String) : Bool :=
  match s with
  | .builtinDir | .project => text ≠ ""
  | .format => (Drawing.ofWord? text).isSome
  | .input | .resume => true

/-- What has been read of one part of the arguments: in front of the command, or behind it. -/
structure Part where
  /-- The flags. -/
  flags : List Flag := []
  /-- The settings, in order. -/
  settings : List (Setting × String) := []
  /-- The words, in order. -/
  words : List String := []

namespace Part

/-- The text of a setting. -/
def setting? (p : Part) (s : Setting) : Option String := p.settings.lookup s

/-- Adds a flag; all but one may be given only once, and two end the reading. -/
def addFlag (p : Part) (command : Option String) (f : Flag) : Except Stop Part :=
  match f with
  | .help => .error (.help command)
  | .version => .error (.version command)
  | .verbose => .ok p
  | .json | .lenient | .dryRun =>
    if p.flags.contains f then .error .misuse else .ok { p with flags := p.flags ++ [f] }

/-- Adds a setting; all but one may be given only once. -/
def addSetting (p : Part) (s : Setting) (text : String) : Except Stop Part :=
  if !s.accepts text || (s ≠ .input && (p.setting? s).isSome) then .error .misuse
  else .ok { p with settings := p.settings ++ [(s, text)] }

/-- Adds a word, if the command takes one more. -/
def addWord (p : Part) (command word : String) : Except Stop Part :=
  if p.words.length < (commandNames.lookup command).getD 0 && (command ≠ "validate" || word ≠ "") then
    .ok { p with words := p.words ++ [word] }
  else .error .misuse

end Part

/-- An argument, by its form. -/
inductive Form where
  /-- A word. -/
  | word
  /-- Two dashes alone. -/
  | escape
  /-- A name, and what follows an equals sign. -/
  | long (name : String) (text : Option String)
  /-- Letters. -/
  | short (letters : List Char)

/-- The form of an argument. -/
def formOf (argument : String) : Form :=
  match argument.toList with
  | ['-', '-'] => .escape
  | '-' :: '-' :: cs =>
    match cutAt? ['='] cs with
    | some (name, text) => .long (String.ofList name) (some (String.ofList text))
    | none => .long (String.ofList cs) none
  | '-' :: c :: cs => .short (c :: cs)
  | _ => .word

/-- Whether an argument may be what the option in front of it is set to. -/
def isText (argument : String) : Bool :=
  match formOf argument with
  | .word => true
  | _ => false

/-- Where the reader of arguments stands. -/
structure Parser where
  /-- The part in front of the command. -/
  front : Part := {}
  /-- The command, by its proper name, and the part behind it. -/
  behind : Option (String × Part) := none
  /-- The setting whose text is the next argument. -/
  wanting : Option Setting := none
  /-- Whether everything is a word. -/
  escaped : Bool := false
  /-- The command that help is asked about, if the word for help stands in place of a command. -/
  topic : Option (Option String) := none

namespace Parser

/-- The command, if its name has been read. -/
def command? (p : Parser) : Option String := p.behind.map Prod.fst

/-- Changes the part that is being read. -/
def change (p : Parser) (f : Part → Except Stop Part) : Except Stop Parser :=
  match p.behind with
  | none => (f p.front).map fun front => { p with front }
  | some (name, part) => (f part).map fun part => { p with behind := some (name, part) }

/-- Takes a setting, and its text if it is there. -/
def takeSetting (p : Parser) (s : Setting) : Option String → Except Stop Parser
  | some text => p.change fun part => part.addSetting s text
  | none => .ok { p with wanting := some s }

/-- Takes a word: the name of the command, or a word of the command. -/
def takeWord (p : Parser) (word : String) : Except Stop Parser :=
  match p.behind with
  | some (name, _) => p.change fun part => part.addWord name word
  | none =>
    if p.escaped then .error .misuse
    else if word = helpWord then .ok { p with topic := some none }
    else if (commandNames.lookup word).isNone then .error .misuse
    else .ok { p with behind := some (properName word, {}) }

/-- Takes the name of the command that help is asked about. -/
def takeTopic (p : Parser) (known : Option String) (word : String) : Except Stop Parser :=
  let isName := word = helpWord || (commandNames.lookup word).isSome
  if known.isSome || !isName then .error .misuse
  else .ok { p with topic := some (some (properName word)) }

/-- Takes an option by its name. -/
def takeLong (p : Parser) (name : String) (text : Option String) : Except Stop Parser :=
  match flag? p.command? name, setting? p.command? name, text with
  | some f, _, none => p.change fun part => part.addFlag p.command? f
  | some _, _, some _ => .error .misuse
  | none, some s, text => p.takeSetting s text
  | none, none, _ => .error .misuse

/-- Takes options by their letters; what follows the letter of a setting is its text. -/
def takeShort (p : Parser) : List Char → Except Stop Parser
  | [] => .ok p
  | c :: rest =>
    match letterFlag? c with
    | some f => do
      let p ← p.change fun part => part.addFlag p.command? f
      p.takeShort rest
    | none =>
      if c = 'i' && p.command? = some "run" then
        match rest with
        | [] => p.takeSetting .input none
        | '=' :: text => p.takeSetting .input (some (String.ofList text))
        | text => p.takeSetting .input (some (String.ofList text))
      else .error .misuse

/-- Takes an argument. -/
def take (p : Parser) (argument : String) : Except Stop Parser :=
  match p.topic, p.wanting with
  | some known, _ => p.takeTopic known argument
  | none, some s =>
    if isText argument then { p with wanting := none }.takeSetting s (some argument)
    else .error .misuse
  | none, none =>
    if p.escaped then p.takeWord argument
    else match formOf argument with
      | .word => p.takeWord argument
      | .escape => .ok { p with escaped := true }
      | .long name text => p.takeLong name text
      | .short letters => p.takeShort letters

end Parser

/-- The command that its name and the part behind it ask for. -/
def commandOf? (name : String) (p : Part) : Option Command :=
  match name, p.words with
  | "list", [] => some .list
  | "show", [target] => some (.detail target)
  | "validate", [file] => some (.validate file)
  | "viz", [target] =>
    some (.viz target (((p.setting? .format).bind Drawing.ofWord?).getD .ascii))
  | "run", [target] =>
    some (.run target ((p.settings.filter fun s => s.1 = .input).map Prod.snd)
      (p.flags.contains .dryRun) (p.setting? .resume))
  | _, _ => none

/-- The variable that names the directory of the workflows that come with the program. -/
def builtinDirVariable : String := "MAVERICK_BUILTIN_WORKFLOWS"

/-- The options that two parts and the environment ask for; what stands behind the command counts
more than what stands in front of it, and both more than the environment. -/
def optionsOf (front behind : Part) (e : Environment) : Options where
  json := front.flags.contains .json || behind.flags.contains .json
  lenient := front.flags.contains .lenient || behind.flags.contains .lenient
  builtinDir := (behind.setting? .builtinDir).orElse fun _ =>
    (front.setting? .builtinDir).orElse fun _ => e.valueOf builtinDirVariable
  project := (behind.setting? .project).orElse fun _ => front.setting? .project

/-- Whether the variable for the directory is set to nothing, and looked at because one of two parts
does not set the directory. -/
def isHollow (front behind : Part) (e : Environment) : Bool :=
  e.valueOf builtinDirVariable = some "" &&
    ((front.setting? .builtinDir).isNone || (behind.setting? .builtinDir).isNone)

/-- **Reads the arguments** of the program. -/
def Invocation.ofArguments (arguments : List String) (e : Environment) :
    Except Stop Invocation := do
  let p ← arguments.foldlM Parser.take {}
  match p.topic, p.behind, p.wanting with
  | some topic, _, _ => throw (.help topic)
  | none, some (name, behind), none =>
    match commandOf? name behind with
    | some command =>
      if isHollow p.front behind e then throw .misuse
      else return { options := optionsOf p.front behind e, command }
    | none => throw .misuse
  | none, _, _ => throw .misuse

end Stepflow.CommandLine
