import Stepflow.Shell.Fields
import Stepflow.Shell.Own.Places
import Stepflow.Shell.Search
import Stepflow.Shell.Vocabulary

/-!
# Commands on names, variables, settings and arguments
-/

/-! ## Names of commands -/

namespace Stepflow.Shell.Own

/-- The number of lists in which names that stand for text are kept. -/
def aliasLists : Nat := 39

/-- The list in which a name that stands for text is kept. -/
def aliasList (name : String) : Nat :=
  let cs := name.toList
  (((cs.head?.map Char.toNat).getD 0) * 16 + cs.foldl (fun n c => n + c.toNat) 0) % aliasLists

/-- Shows a name that stands for text. -/
def showAlias (name text : String) : Act Unit := Act.say (Search.aliasText name text ++ "\n")

/-- Lets names stand for text, or shows what they stand for. -/
def aliasCommand (arguments : List String) : Act Nat := do
  if arguments.isEmpty then
    let aliases := (← Act.session).aliases
    for (name, text) in aliases.mergeSort fun a b => aliasList a.1 ≤ aliasList b.1 do
      showAlias name text
    return 0
  let mut status := 0
  for a in arguments do
    let cs := a.toList
    -- An equals sign at the start belongs to the name.
    let (name, text) := Act.splitAssignment (String.ofList cs.tail)
    let name := String.ofList (cs.take 1) ++ name
    match text with
    | some text => Act.change fun s => { s with aliases := putEntry s.aliases name text }
    | none =>
      match (← Act.session).aliases.lookup a with
      | some text => showAlias a text
      | none =>
        Act.putError ("alias: " ++ a ++ " not found\n")
        status := 1
  return status

/-- Lets names stand for nothing but themselves. -/
def unaliasCommand (arguments : List String) : Act Nat := do
  let (options, names) ← takeOptions (plain ['a']) arguments
  if !options.isEmpty then
    Act.change fun s => { s with aliases := [] }
    return 0
  let mut status := 0
  for name in names do
    if ((← Act.session).aliases.lookup name).isSome then
      Act.change fun s => { s with aliases := dropEntry s.aliases name }
    else
      Act.putError ("unalias: " ++ name ++ " not found\n")
      status := 1
  return status

/-- Tells what names stand for. -/
def typeCommand (arguments : List String) : Act Nat := do
  let statuses ← arguments.mapM fun name => Search.describe name true false
  return statuses.foldl (· ||| ·) 0

/-- Tells what a name stands for, as the options say. -/
def commandCommand (arguments : List String) : Act Nat := do
  let (options, names) ← takeOptions (plain ['p', 'v', 'V']) arguments
  let has (c : Char) : Bool := options.any fun o => o.1 = c
  match names with
  | name :: _ => if has 'v' || has 'V' then Search.describe name (has 'V') (has 'p') else return 0
  | [] => return 0

/-- Shows or forgets the programs that were found, or looks for some. -/
def hashCommand (arguments : List String) : Act Nat := do
  let (options, names) ← takeOptions (plain ['r', 'v']) arguments
  if options.any fun o => o.1 = 'r' then
    Act.change fun s => { s with known := [] }
    return 0
  if names.isEmpty then
    for name in (← Act.session).known do
      if let .program _ path ← Search.program (← Search.path) name then Act.say (path ++ "\n")
    return 0
  let mut status := 0
  for name in names do
    match ← Search.command name true false with
    | .nothing t =>
      Act.complain (name ++ ": " ++ Search.reason t)
      status := 1
    | _ => pure ()
  return status

/-! ## Variables -/

/-- Shows variables, each behind a word. -/
def showVariables (word : String) (shown : Variable → Bool) : Act Nat := do
  for (name, v) in (← Act.session).sorted do
    if shown v then
      let start := if word = "" then name else word ++ " " ++ name
      match v.value with
      | some value => Act.say (start ++ "=" ++ singleQuoted value ++ "\n")
      | none => if word ≠ "" then Act.say (start ++ "\n")
  return 0

/-- Marks variables, which may get values first; without names the marked ones are shown. -/
def mark (word : String) (shown : Variable → Bool) (set : Variable → Variable)
    (arguments : List String) : Act Nat := do
  let (options, names) ← takeOptions (plain ['p']) arguments
  if !options.isEmpty || names.isEmpty then return ← showVariables word shown
  for a in names do
    let (name, value) := Act.splitAssignment a
    match value with
    | some value => Act.assign name value
    | none => Act.checkName name
    Act.markVariable name set
  return 0

/-- Gives variables to processes. -/
def exportCommand : List String → Act Nat :=
  mark "export" Variable.exported fun v => { v with exported := true }

/-- Lets variables keep their values. -/
def readonlyCommand : List String → Act Nat :=
  mark "readonly" Variable.fixed fun v => { v with fixed := true }

/-- Hides variables until the end of the function. -/
def localCommand (arguments : List String) : Act Nat := do
  if (← Act.session).hidden.isEmpty then Act.raise "not in a function"
  for a in arguments do
    if a = "-" then Act.hideSettings
    else
      let (name, value) := Act.splitAssignment a
      Act.checkName name
      Act.hide name
      if let some value := value then Act.assign name value
  return 0

/-- Unsets variables or functions. -/
def unsetCommand (arguments : List String) : Act Nat := do
  let (options, names) ← takeOptions (plain ['v', 'f']) arguments
  let functions := options.getLast?.any fun o => o.1 = 'f'
  for name in names do
    if functions then Act.change fun s => { s with functions := dropEntry s.functions name }
    else Act.unassign name
  return 0

/-! ### Settings and arguments -/

/-- Replaces the arguments. -/
def setArguments (arguments : List String) : Act Unit :=
  Act.change fun s => { s with arguments, optionIndex := 1, lettersTaken := none }

/-- Turns a setting on or off. -/
def turn (letter : Char) (on : Bool) : Act Unit :=
  Act.change fun s => { s with settings := Setting.turn s.settings letter on }

/-- Turns a setting on or off by its name; without a name all are shown. -/
def turnNamed (name : Option String) (on : Bool) : Act Unit := do
  match name with
  | none =>
    let settings := (← Act.session).settings
    Act.say (if on then Setting.table settings else Setting.commands settings)
  | some name =>
    match Setting.all.lookup name with
    | some (some letter) => turn letter on
    | some none => return
    | none => Act.raise ("Illegal option -o " ++ name)

/-- Takes the settings in one argument, behind its sign. -/
def settings (on : Bool) : List Char → List String → Act (List String)
  | [], rest => return rest
  | 'o' :: cs, rest => do
    turnNamed rest.head? on
    settings on cs rest.tail
  | c :: cs, rest => do
    if !Setting.letters.contains c then Act.raise ("Illegal option -" ++ String.singleton c)
    turn c on
    settings on cs rest

/-- Takes settings, and replaces the arguments by what is left, if anything is. -/
def setAll : Nat → List String → Act Unit
  | 0, _ => return
  | n + 1, arguments =>
    let replace (rest : List String) : Act Unit := if rest.isEmpty then return else setArguments rest
    match arguments with
    | [] => return
    | "--" :: rest => setArguments rest
    | "-" :: rest => do
      turn 'x' false
      turn 'v' false
      replace rest
    | a :: rest =>
      match a.toList with
      | '-' :: cs => do setAll n (← settings true cs rest)
      | '+' :: cs => do setAll n (← settings false cs rest)
      | _ => replace (a :: rest)

/-- Makes settings, replaces the arguments, or shows all variables. -/
def setCommand (arguments : List String) : Act Nat := do
  if arguments.isEmpty then return ← showVariables "" fun _ => true
  setAll (arguments.length + 1) arguments
  return 0

/-- Drops arguments at the start. -/
def shiftCommand (arguments : List String) : Act Nat := do
  let n ← match arguments with
    | [] => pure 1
    | a :: _ => number a
  let present := (← Act.session).arguments
  if n > present.length then Act.raise "can't shift that many"
  setArguments (present.drop n)
  return 0

/-! ### Reading -/

/-- How an escape in a line is being read. -/
structure LineState where
  /-- The spans so far, the last first. -/
  spans : List Span := []
  /-- How many characters were taken. -/
  taken : Nat := 0
  /-- Whether the next character stands for itself. -/
  escaped : Bool := false

/-- Adds a character to the spans of a line. -/
def addToLine (spans : List Span) (c : Char) (itself : Bool) : List Span :=
  if itself then { glyphs := [.char c true] } :: spans
  else match spans with
    | { glyphs, dividing := .characters } :: before =>
      { glyphs := .char c false :: glyphs, dividing := .characters } :: before
    | spans => { glyphs := [.char c false], dividing := .characters } :: spans

/-- Takes the characters of a line; says whether it ended with an end of line. -/
def takeLine (raw : Bool) : List Char → LineState → LineState × Bool
  | [], st => (st, false)
  | c :: rest, st =>
    let st := { st with taken := st.taken + 1 }
    if c = '\x00' then takeLine raw rest st
    else if st.escaped then
      if c = '\n' then takeLine raw rest { st with escaped := false }
      else takeLine raw rest { st with spans := addToLine st.spans c true, escaped := false }
    else if c = '\\' && !raw then takeLine raw rest { st with escaped := true }
    else if c = '\n' then (st, true)
    else takeLine raw rest { st with spans := addToLine st.spans c false }

/-- The spans of a line, in order. -/
def lineSpans (st : LineState) : List Span :=
  (st.spans.map fun s => { s with glyphs := s.glyphs.reverse }).reverse

/-- Reads a line into variables. -/
def readCommand (arguments : List String) : Act Nat := do
  let (options, names) ← takeOptions [('p', true), ('r', false)] arguments
  if names.isEmpty then Act.raise "arg count"
  let raw := options.any fun o => o.1 = 'r'
  let text := (← Act.remaining 0).toOption.getD ""
  let (st, complete) := takeLine raw text.toList {}
  Act.skip 0 st.taken
  let fields := Fields.divide (← Act.session).separators (some names.length) (lineSpans st)
  for (name, i) in names.zipIdx do
    Act.assign name (Glyph.text (fields[i]?.getD []))
  return if complete then 0 else 1

/-! ### Options of scripts -/

/-- What taking an option of a script comes to. -/
structure Taken where
  /-- What the variable for the option gets. -/
  letter : Char
  /-- What the variable for its value gets; nothing if it is unset. -/
  value : Option String
  /-- The number of the next argument. -/
  index : Nat
  /-- How many characters of the argument before it were taken, if it is not done. -/
  letters : Option Nat
  /-- What is complained about. -/
  complaint : Option String := none
  /-- Whether there was no option. -/
  ended : Bool := false

/-- Takes the option `c` out of an argument, of which `taken` characters then are taken, and behind
which `rest` comes; `index` is the number of the argument behind. -/
def takeOption (known : List Char) (c : Char) (rest : List Char) (taken index : Nat)
    (next : Option String) : Taken :=
  let quiet := known.head? = some ':'
  let letters := if rest.isEmpty then none else some taken
  let after := (known.dropWhile (· ≠ c)).tail
  let name := String.singleton c
  if c = ':' || !known.contains c then
    if quiet then { letter := '?', value := some name, index, letters }
    else { letter := '?', value := none, index, letters, complaint := some ("Illegal option -" ++ name) }
  else if after.head? = some ':' then
    if !rest.isEmpty then { letter := c, value := some (String.ofList rest), index, letters := none }
    else match next with
      | some value => { letter := c, value := some value, index := index + 1, letters := none }
      | none =>
        if quiet then { letter := ':', value := some name, index, letters }
        else
          { letter := '?', value := none, index, letters
            complaint := some ("No arg for -" ++ name ++ " option") }
  else { letter := c, value := some "", index, letters }

/-- Takes an option out of arguments, from the place where the last one was. -/
def nextOption (known : List Char) (arguments : List String) (index : Nat) (letters : Option Nat) :
    Taken :=
  let index := max index 1
  let ended (index : Nat) : Taken :=
    { letter := '?', value := some "", index, letters := none, ended := true }
  let before := if index ≤ 1 then none else arguments[index - 2]?
  let left := match letters, before with
    | some n, some a => a.toList.drop n
    | _, _ => []
  match left with
  | c :: rest => takeOption known c rest ((letters.getD 0) + 1) index arguments[index - 1]?
  | [] =>
    match arguments[index - 1]? with
    | none => ended index
    | some a =>
      match a.toList with
      | '-' :: c :: rest =>
        if c = '-' && rest.isEmpty then ended (index + 1)
        else takeOption known c rest 2 (index + 1) arguments[index]?
      | _ => ended index

/-- Takes the next option of a script. -/
def getoptsCommand (arguments : List String) : Act Nat := do
  match arguments with
  | known :: name :: given =>
    let s ← Act.session
    let t := nextOption known.toList (if given.isEmpty then s.arguments else given) s.optionIndex
      s.lettersTaken
    if let some message := t.complaint then Act.putError (message ++ "\n")
    if !t.ended then
      match t.value with
      | some value => Act.assign "OPTARG" value
      | none => Act.unassign "OPTARG"
    Act.assign "OPTIND" (toString t.index)
    Act.change fun s => { s with optionIndex := t.index, lettersTaken := t.letters }
    Act.assign name (String.singleton t.letter)
    return if t.ended then 1 else 0
  | _ => Act.raise "Usage: getopts optstring var [arg...]"

end Stepflow.Shell.Own
