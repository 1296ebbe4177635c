import Stepflow.Shell.Streams

/-!
# What programs have in common

A program is given arguments, runs as a process of its own and ends with a number. Its complaints begin
with the name under which it was started. Names of files are shown in them so that they could be given to
a shell.
-/

namespace Stepflow.Shell.Program

open Act

/-- What a program does with its arguments. -/
abbrev Body := List String → Act Nat

/-! ### Shown names -/

/-- Whether a character has no meaning for a shell, wherever it stands in a word. -/
def isHarmless (c : Char) : Bool :=
  c.isAlphanum || ['%', '+', ',', '-', '.', '/', ':', '@', '_', ']', '#', '~', '\x7b', '\x7d'].contains c

/-- Whether a character can be shown. -/
def isVisible (c : Char) : Bool := ' ' ≤ c && c ≤ '~'

/-- Whether a text can be given to a shell as it is. -/
def isPlainWord (s : String) : Bool :=
  match s.toList with
  | [] => false
  | [c] => isHarmless c && !(['#', '~', '\x7b', '\x7d'].contains c)
  | c :: rest => isHarmless c && c ≠ '#' && c ≠ '~' && rest.all isHarmless

/-- The mark for a character that cannot be shown, behind a reverse solidus. -/
def escapeMark (c : Char) : List Char :=
  match [('\x07', 'a'), ('\x08', 'b'), ('\t', 't'), ('\n', 'n'), ('\x0b', 'v'), ('\x0c', 'f'),
    ('\r', 'r')].lookup c with
  | some m => [m]
  | none => (Nat.toDigits 8 (c.toNat % 512 + 512)).tail

/-- Shows the characters of a text between single quotes; `visible` says that the last one could be
shown. -/
def quotedTail : (visible : Bool) → List Char → List Char
  | true, [] => ['\'']
  | false, [] => ['\'']
  | true, '\'' :: rest => '\'' :: '\\' :: '\'' :: '\'' :: quotedTail true rest
  | visible, c :: rest =>
    if isVisible c then
      if visible then c :: quotedTail true rest else '\'' :: '\'' :: c :: quotedTail true rest
    else
      let mark := '\\' :: escapeMark c
      if visible then '\'' :: '$' :: '\'' :: mark ++ quotedTail false rest
      else mark ++ quotedTail false rest

/-- Whether a text stands for itself between double quotes. -/
def isDoubleQuotable (s : String) : Bool :=
  s.toList.all fun c => isHarmless c || c = ' ' || c = '\''

/-- A name in quotes. -/
def quoted (s : String) : String :=
  if s.toList.contains '\'' && isDoubleQuotable s then "\"" ++ s ++ "\""
  else String.ofList ('\'' :: quotedTail true s.toList)

/-- A name, in quotes if it needs them. -/
def shown (s : String) : String := if isPlainWord s then s else quoted s

/-! ### Complaints -/

/-- The name under which the program was started. -/
def ownName : Act String := do return ((← session).running).getD ""

/-- Complains. -/
def complain (message : String) : Act Unit := do
  putError ((← ownName) ++ ": " ++ message ++ "\n")

/-- Tells where help is found. -/
def hint : Act Unit := do
  putError ("Try '" ++ (← ownName) ++ " --help' for more information.\n")

/-- Complains about arguments, and gives the number with which the program ends. -/
def misused (status : Nat) (message : String) : Act Nat := do
  complain message
  hint
  return status

/-- Complains, and gives the number with which the program ends. -/
def failing (message : String) : Act Nat := do
  complain message
  return 1

/-- Complains about access that failed to what has a name. -/
def complainOf (name : String) (t : Trouble) : Act Unit := complain (shown name ++ ": " ++ t.reason)

/-! ### Reading and writing -/

/-- What is in a file; a minus sign stands for what the program reads. -/
def contents (name : String) : Act (Except Trouble String) :=
  if name = "-" then readAll 0 else readPath name

/-- The files to be read: those that are named, or what the program reads. -/
def inputs (operands : List String) : List String := if operands.isEmpty then ["-"] else operands

/-- Complains that something cannot be written, and ends the program. -/
def unwritable {α : Type} (what : String) : Act α := do
  complain (what ++ ": " ++ Trouble.noStream.reason)
  setStatus 1
  throw .failed

/-- Writes to the output. -/
def emit (text : String) : Act Unit := do if !(← put text) then unwritable "write error"

/-- Does something for each of some names; gives the greatest number that comes of it. -/
def forEach (names : List String) (f : String → Act Nat) : Act Nat := do
  let mut status := 0
  for name in names do status := max status (← f name)
  return status

/-- The lines of a text, each with the end of line that it has. -/
def lines (s : String) : List (List Char) := go s.toList []
where
  /-- Gathers the characters of a line, the last one first. -/
  go : List Char → List Char → List (List Char)
    | [], [] => []
    | [], line => [line.reverse]
    | '\n' :: rest, line => ('\n' :: line).reverse :: go rest []
    | c :: rest, line => go rest (c :: line)

/-- A line without its end. -/
def lineText (line : List Char) : List Char :=
  match line.getLast? with
  | some '\n' => line.dropLast
  | _ => line

/-- The texts of the lines of a text. -/
def lineTexts (s : String) : List (List Char) := (lines s).map lineText

/-- A text of lines. -/
def ofLines (ls : List (List Char)) : String := String.ofList (ls.flatMap fun l => l ++ ['\n'])

end Stepflow.Shell.Program

/-!
## Options

Options may stand among the other arguments. They are letters behind one minus sign, several of which may
stand together, or words behind two, of which a part is enough if it fits no other. An option may take a
value: what follows the letter, or what stands behind an equals sign, or the next argument.
-/

namespace Stepflow.Shell.Program

/-- The options that a program knows. -/
structure Options where
  /-- The letters without values. -/
  plain : List Char := []
  /-- The letters with values. -/
  valued : List Char := []
  /-- The letters that may have values, which then follow them at once. -/
  optional : List Char := []
  /-- The words, with the letters that they stand for, and whether they take values. -/
  words : List (String × Char × Bool) := []
  /-- Whether the first argument that is no option ends them. -/
  leading : Bool := false

/-- An option that was given, with its value if it takes one. -/
abbrev Given := Char × Option String

/-- The arguments of a program: the options, and the others. -/
structure Arguments where
  /-- The options, in their order. -/
  options : List Given
  /-- The others. -/
  operands : List String

namespace Arguments

/-- Whether an option was given. -/
def has (a : Arguments) (letter : Char) : Bool := a.options.any fun o => o.1 = letter

/-- The value that was given last for an option. -/
def value? (a : Arguments) (letter : Char) : Option String :=
  (a.options.filterMap fun o => if o.1 = letter then o.2 else none).getLast?

/-- The option among some that was given last. -/
def last? (a : Arguments) (letters : List Char) : Option Char :=
  ((a.options.map Prod.fst).filter letters.contains).getLast?

end Arguments

namespace Options

/-- Takes the letters in an argument: the options, whether the next argument is the value of the last one,
and that one. -/
def ofLetters (o : Options) : List Char → Except String (List Given × Option Char)
  | [] => .ok ([], none)
  | c :: cs =>
    if o.plain.contains c then (o.ofLetters cs).map fun (gs, open?) => ((c, none) :: gs, open?)
    else if o.valued.contains c then
      if cs.isEmpty then .ok ([], some c) else .ok ([(c, some (String.ofList cs))], none)
    else if o.optional.contains c then
      .ok ([(c, if cs.isEmpty then none else some (String.ofList cs))], none)
    else .error ("invalid option -- '" ++ String.singleton c ++ "'")

/-- The words that a part of a word may stand for. -/
def fitting (o : Options) (name : String) : List (String × Char × Bool) :=
  match o.words.find? fun w => w.1 = name with
  | some w => [w]
  | none => o.words.filter fun w => name.toList.isPrefixOf w.1.toList

/-- Takes the word in an argument; tells whether the next argument is its value. -/
def ofWord (o : Options) (word : String) : Except String (Given × Bool) :=
  let cs := word.toList
  let name := String.ofList (cs.takeWhile (· ≠ '='))
  let value := match cs.drop name.length with
    | _ :: v => some (String.ofList v)
    | [] => none
  let fits := o.fitting name
  let letters := (fits.map fun w => w.2.1).eraseDups
  match fits, letters with
  | w :: _, [letter] =>
    let takes := w.2.2
    if takes then
      match value with
      | some v => .ok ((letter, some v), false)
      | none => .ok ((letter, none), true)
    else if value.isSome then .error ("option '--" ++ w.1 ++ "' doesn't allow an argument")
    else .ok ((letter, none), false)
  | [], _ => .error ("unrecognized option '--" ++ name ++ "'")
  | ws, _ =>
    .error ("option '--" ++ name ++ "' is ambiguous; possibilities:" ++
      String.join (ws.map fun w => " '--" ++ w.1 ++ "'"))

/-- The word that is shown when the value of an option is missing. -/
def missingValue (o : Options) (word : Option String) (letter : Char) : String :=
  match word with
  | some name =>
    "option '--" ++ (((o.fitting name).head?.map Prod.fst).getD name) ++ "' requires an argument"
  | none => "option requires an argument -- '" ++ String.singleton letter ++ "'"

/-- Tells options from other arguments. -/
def read (o : Options) : List String → Except String Arguments
  | [] => .ok ⟨[], []⟩
  | a :: rest =>
    match a.toList with
    | ['-', '-'] => .ok ⟨[], rest⟩
    | '-' :: '-' :: word =>
      match o.ofWord (String.ofList word) with
      | .error e => .error e
      | .ok ((letter, value), takesNext) =>
        if takesNext then
          match rest with
          | [] => .error (o.missingValue (some (String.ofList word)) letter)
          | v :: rest => (o.read rest).map fun as => { as with options := (letter, some v) :: as.options }
        else (o.read rest).map fun as => { as with options := (letter, value) :: as.options }
    | '-' :: c :: cs =>
      match o.ofLetters (c :: cs) with
      | .error e => .error e
      | .ok (gs, none) => (o.read rest).map fun as => { as with options := gs ++ as.options }
      | .ok (gs, some letter) =>
        match rest with
        | [] => .error (o.missingValue none letter)
        | v :: rest =>
          (o.read rest).map fun as => { as with options := gs ++ (letter, some v) :: as.options }
    | _ =>
      if o.leading then .ok ⟨[], a :: rest⟩
      else (o.read rest).map fun as => { as with operands := a :: as.operands }

/-- A program with options; `status` is the number with which it ends if they are wrong. -/
def program (o : Options) (status : Nat) (body : Arguments → Act Nat) : Body := fun arguments => do
  match o.read arguments with
  | .ok as => body as
  | .error message => misused status message

end Options

/-- Complains that arguments are missing. -/
def missingOperand (status : Nat) : Act Nat := misused status "missing operand"

/-- Complains about an argument too much. -/
def extraOperand (status : Nat) (operand : String) : Act Nat :=
  misused status ("extra operand " ++ quoted operand)

end Stepflow.Shell.Program
