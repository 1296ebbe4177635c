import Stepflow.Shell.Command

/-!
# Reading texts of commands

A reader takes characters from a text and gives tokens. It can give back the last token, and it can be
told what to look for: words that are reserved, and names that stand for other text.

A reverse solidus before the end of a line joins it to the next one, except where characters stand for
themselves.
-/

namespace Stepflow.Shell

/-- What is wrong with a text of commands, and in which line. -/
structure ReadError where
  /-- The line. -/
  line : Nat
  /-- What is wrong. -/
  message : String

/-- A token of a text of commands. -/
inductive Token where
  /-- The end of the text. -/
  | ending
  /-- The end of a line. -/
  | newline
  /-- A mark between commands or around them. -/
  | operator (text : String)
  /-- A word with a meaning of its own. -/
  | reserved (text : String)
  /-- A mark of a redirection. -/
  | redirection
  /-- A word. -/
  | word
  deriving DecidableEq, Inhabited

namespace Token

/-- How a token is called. -/
def title : Token → String
  | .ending => "end of file"
  | .newline => "newline"
  | .operator text | .reserved text => "\"" ++ text ++ "\""
  | .redirection => "redirection"
  | .word => "word"

/-- The words that have a meaning of their own where a command may begin. -/
def reservedWords : List String :=
  ["!", "case", "do", "done", "elif", "else", "esac", "fi", "for", "if", "in", "then", "until", "while",
    "\x7b", "\x7d"]

/-- Whether a list of commands ends before a token. -/
def endsList : Token → Bool
  | .ending => true
  | .operator text => text = ")" || text = ";;"
  | .reserved text =>
    ["do", "done", "elif", "else", "esac", "fi", "then", "\x7d"].contains text
  | _ => false

end Token

/-- What a reader looks for in the next token. -/
structure Lookout where
  /-- Ends of lines are passed over. -/
  lines : Bool := false
  /-- Reserved words are known. -/
  reserved : Bool := false
  /-- Names that stand for text are replaced. -/
  aliases : Bool := false
  /-- The word will end a document, so that nothing in it is replaced. -/
  mark : Bool := false

namespace Lookout

/-- Looks for everything that may begin a command. -/
def command : Lookout := { reserved := true, aliases := true }

/-- Looks for everything that may begin a command, also on a later line. -/
def commandBelow : Lookout := { lines := true, reserved := true, aliases := true }

/-- Looks for reserved words, also on a later line. -/
def reservedBelow : Lookout := { lines := true, reserved := true }

/-- Looks for names that stand for text. -/
def aliased : Lookout := { aliases := true }

end Lookout

/-- How a redirection begins. -/
inductive Opening where
  /-- The name of a file follows. -/
  | file (access : Access)
  /-- Another stream follows. -/
  | copy
  /-- The end of a document follows; blanks at the start of its lines may be left out. -/
  | document (indented : Bool)
  deriving Inhabited

/-- A document that is still to be read. -/
structure Awaited where
  /-- Its number. -/
  number : Nat
  /-- The line that ends it. -/
  mark : List Char
  /-- Whether blanks at the start of its lines are left out. -/
  indented : Bool
  /-- Whether everything in it stands for itself. -/
  literal : Bool

/-- A name whose text is being read. -/
structure ActiveAlias where
  /-- The name. -/
  name : String
  /-- The number of characters behind its text. -/
  behind : Nat
  /-- Whether its text ends with a blank, so that the next word may be such a name too. -/
  passesOn : Bool

/-- A reader. -/
structure Reader where
  /-- The characters to come. -/
  rest : List Char
  /-- The line. -/
  line : Nat := 1
  /-- The last token. -/
  token : Token := .ending
  /-- Whether the last token is to be given again. -/
  again : Bool := false
  /-- What is looked for. -/
  lookout : Lookout := {}
  /-- The last word. -/
  word : Word := []
  /-- Whether any of the last word is quoted. -/
  quoted : Bool := false
  /-- The stream of the last redirection, and how it begins. -/
  opening : Nat × Opening := (0, .copy)
  /-- The documents that are still to be read. -/
  awaited : List Awaited := []
  /-- The documents. -/
  documents : Array Word := #[]
  /-- The names that stand for text. -/
  aliases : List (String × String) := []
  /-- The names whose text is being read. -/
  active : List ActiveAlias := []

/-- A step of reading. -/
abbrev Reading := StateT Reader (Except ReadError)

namespace Reading

/-- Something is wrong. -/
def fail {α : Type} (message : String) : Reading α := do
  throw ⟨(← get).line, "Syntax error: " ++ message⟩

/-- How many characters a complaint about a token may have. -/
def complaintLimit : Nat := 63

/-- The last token is not what was expected. -/
def unexpected {α : Type} (expected : Option Token := none) : Reading α := do
  let found := (← get).token.title ++ " unexpected"
  let message := match expected with
    | some t => found ++ " (expecting " ++ t.title ++ ")"
    | none => found
  fail (String.ofList (message.toList.take complaintLimit))

/-- Takes a character, as it stands. -/
def next : Reading (Option Char) := do
  let r ← get
  match r.rest with
  | [] => return none
  | c :: rest =>
    set { r with rest }
    return some c

/-- Gives a character back. -/
def back : Option Char → Reading Unit
  | none => return
  | some c => modify fun r => { r with rest := c :: r.rest }

/-- Counts a line. -/
def countLine : Reading Unit := modify fun r => { r with line := r.line + 1 }

/-- Joins lines: drops ends of lines behind a reverse solidus, and counts them. -/
def joined : List Char → Nat → List Char × Nat
  | '\\' :: '\n' :: rest, line => joined rest (line + 1)
  | rest, line => (rest, line)

/-- Takes a character, with lines joined. -/
def nextJoined : Reading (Option Char) := do
  modify fun r =>
    let (rest, line) := joined r.rest r.line
    { r with rest, line }
  next

/-- Whether the next character, with lines joined, is a certain one; it is taken if it is. -/
def takes (c : Char) : Reading Bool := do
  let d ← nextJoined
  if d = some c then return true
  back d
  return false

/-- Says what to look for in the next token. -/
def lookFor (l : Lookout) : Reading Unit := modify fun r => { r with lookout := l }

/-- Makes a token the last one. -/
def give (t : Token) : Reading Token := do
  modify fun r => { r with token := t }
  return t

/-- Has the last token given again. -/
def giveBack : Reading Unit := modify fun r => { r with again := true }

/-- The text that a name stands for, unless that text is being read. -/
def aliasOf? (r : Reader) (name : String) : Option String :=
  match r.aliases.lookup name with
  | none => none
  | some text =>
    let length := r.rest.length
    if r.active.any fun a => a.name = name && a.behind ≤ length then none else some text

/-- Puts the text that a name stands for in front of the characters to come. -/
def replaceAlias (name text : String) : Reading Unit :=
  modify fun r =>
    let text := text.toList
    let a : ActiveAlias :=
      { name, behind := r.rest.length, passesOn := [some ' ', some '\t'].contains text.getLast? }
    { r with rest := text ++ r.rest, active := a :: r.active }

/-- Whether the text of a name that passes on what it is ended since `length` characters were left. -/
def passedOn (r : Reader) (length : Nat) : Bool :=
  r.active.any fun a => a.passesOn && r.rest.length ≤ a.behind && a.behind < length

end Reading

end Stepflow.Shell
