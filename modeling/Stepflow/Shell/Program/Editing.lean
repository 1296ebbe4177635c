import Stepflow.Shell.Program.Editing.Reader
import Stepflow.Shell.Program.Showing

/-!
# Editing files

Scripts are run over the lines of files, by a command that has options of its own.
-/

/-!
## Running scripts

The commands are run in their order for each line. A block is passed over for lines that it is not for,
and jumps go to labels. What belongs behind a line is written when the next one is read.
-/

namespace Stepflow.Shell.Program.Edit

open Act

/-- Where the run of a script stands. -/
structure Place where
  /-- The line that is worked on. -/
  space : List Char := []
  /-- The text that is kept aside. -/
  aside : List Char := []
  /-- The number of the line. -/
  line : Nat := 0
  /-- The lines to come. -/
  input : List (List Char)
  /-- Whether the present line ends as lines do. -/
  ends : Bool := true
  /-- Whether something was replaced since the last line was read. -/
  replaced : Bool := false
  /-- For each command that is for several lines, the last one if it has begun. -/
  begun : List (Nat × Option Nat) := []
  /-- What is written behind the line. -/
  behind : List (Sum (List Char) String) := []
  /-- The expression that was used last. -/
  used : Option Regular := none
  /-- The name of the file. -/
  name : String := "-"
  /-- Whether nothing is written that is not asked for. -/
  quiet : Bool := false
  /-- Whether the next line is not read, as something was left of this one. -/
  again : Bool := false
  /-- What goes to the output, the last part in front. -/
  output : List (List Char) := []
  /-- What goes to files. -/
  files : List (String × List Char) := []

/-- What follows a command. -/
inductive Step where
  /-- The next command. -/
  | next
  /-- The command with a number. -/
  | go (n : Nat)
  /-- The next line; the flag says whether this one is written. -/
  | line (writes : Bool)
  /-- The end; the flag says whether the line is written. -/
  | stop (writes : Bool) (status : Nat)

/-- A step of the run of a script. -/
abbrev Run := StateT Place Act

/-- Writes a text. -/
def put (cs : List Char) : Run Unit := modify fun p => { p with output := cs :: p.output }

/-- Writes a line. -/
def putLine (cs : List Char) : Run Unit := do put (cs ++ if (← get).ends then ['\n'] else [])

/-- Whether a pattern fits the line. -/
def search (pattern : Pattern) (start : Nat) (text : Array Char) :
    Run (Option (Nat × Regular.Found)) := do
  let p ← get
  match pattern.expression.orElse fun _ => p.used with
  | none => return none
  | some r =>
    set { p with used := some r }
    return Regular.Subject.search { text, folds := pattern.folds } r start

/-- Whether the present line is one that an address names. -/
def isAt : Address → Run Bool
  | .line n => do return (← get).line = n
  | .every first step => do
    let line := (← get).line
    return if step = 0 then line = first else line ≥ first && (line - first) % step = 0
  | .last => do return (← get).input.isEmpty
  | .fits p => do return (← search p 0 (← get).space.toArray).isSome
  | .more _ | .multiple _ => return false

/-- The line up to which a command is for that begins at the present one: none if it is not known. -/
def stopOf (line : Nat) : Address → Option Nat
  | .line n => some (max n line)
  | .more n => some (line + n)
  | .multiple n => some (if n = 0 then line else (line + n - 1) / n * n)
  | _ => none

/-- Whether a command is for the present line; `k` is its number. -/
def isMeant (k : Nat) (c : Command) : Run Bool := do
  let found ← match c.first, c.second with
    | none, _ => pure true
    | some a, none => isAt a
    | some a, some b =>
      let p ← get
      let close : Run Unit := modify fun p => { p with begun := p.begun.filter fun o => o.1 ≠ k }
      let state := match a with
        | .line 0 => if p.line = 1 && (p.begun.lookup k).isNone then some none else p.begun.lookup k
        | _ => p.begun.lookup k
      match state with
      | some (some stop) =>
        if p.line ≥ stop then close
        pure (p.line ≤ stop)
      | some none =>
        if ← isAt b then close
        else modify fun p => { p with begun := (k, none) :: p.begun.filter fun o => o.1 ≠ k }
        pure true
      | none =>
        if ← isAt a then
          let stop := match b with
            | .fits _ | .last => none
            | b => stopOf p.line b
          let isOver := match b with
            | .last => p.input.isEmpty
            | _ => stop.any (· ≤ p.line)
          if !isOver then modify fun p => { p with begun := (k, stop) :: p.begun }
          pure true
        else pure false
  return found != c.negated

/-- How letters are changed: those that follow, and the next one. -/
structure Letters where
  /-- How those that follow are changed. -/
  all : Option Char := none
  /-- How the next one is. -/
  next : Option Char := none

/-- Changes the letters of a text. -/
def changed : Letters → List Char → List Char × Letters
  | l, [] => ([], l)
  | l, c :: rest =>
    let change (mark : Option Char) (c : Char) : Char :=
      match mark with
      | some 'U' | some 'u' => c.toUpper
      | some _ => c.toLower
      | none => c
    let d := change (l.next.orElse fun _ => l.all) c
    let (cs, l) := changed { l with next := none } rest
    (d :: cs, l)

/-- The text that replaces a match. -/
def replacement (text : Array Char) (start : Nat) (f : Regular.Found) : Letters → List Piece → List Char
  | _, [] => []
  | l, .letters c :: rest =>
    if c = 'E' then replacement text start f {} rest
    else if c = 'U' || c = 'L' then replacement text start f { l with all := some c } rest
    else replacement text start f { l with next := some c } rest
  | l, .text cs :: rest =>
    let (cs, l) := changed l cs
    cs ++ replacement text start f l rest
  | l, .group n :: rest =>
    let part := if n = 0 then some (start, f.stop) else f.groups.lookup n
    let cs := match part with
      | some (i, j) => (text.extract i j).toList
      | none => []
    let (cs, l) := changed l cs
    cs ++ replacement text start f l rest

/-- Replaces matches from a place on; `count` is the number of those in front. The first number bounds
them. Gives the new text and whether something was replaced. -/
def replaceFrom (s : Substitution) (text : Array Char) : Nat → (i count : Nat) → (last : Option Nat) →
    Run (List Char × Bool)
  | 0, i, _, _ => return ((text.extract i text.size).toList, false)
  | n + 1, i, count, last => do
    match ← search s.pattern i text with
    | none => return ((text.extract i text.size).toList, false)
    | some (start, f) =>
      let before := (text.extract i start).toList
      if f.stop = start && last = some start then
        -- An empty match right behind another one does not count.
        if start ≥ text.size then return (before, false)
        let (rest, done) ← replaceFrom s text n (start + 1) count none
        return (before ++ (text.extract start (start + 1)).toList ++ rest, done)
      let count := count + 1
      let wanted := count = s.number || (s.all && count > s.number)
      let new := if wanted then replacement text start f {} s.pieces else (text.extract start f.stop).toList
      if wanted && !s.all then
        return (before ++ new ++ (text.extract f.stop text.size).toList, true)
      if f.stop = start then
        if start ≥ text.size then return (before ++ new, wanted)
        let (rest, done) ← replaceFrom s text n (start + 1) count none
        return (before ++ new ++ (text.extract start (start + 1)).toList ++ rest, wanted || done)
      let (rest, done) ← replaceFrom s text n f.stop count (some f.stop)
      return (before ++ new ++ rest, wanted || done)

/-- Adds a line to a file, whose text is kept until the end. -/
def addTo (path : String) (cs : List Char) : Run Unit :=
  if path = "/dev/stdout" then putLine cs
  else modify fun p =>
    let old := (p.files.lookup path).getD []
    { p with files := (path, old ++ cs ++ ['\n']) :: p.files.filter fun f => f.1 ≠ path }

/-- Replaces what an expression fits in the line. -/
def substitute (s : Substitution) : Run Unit := do
  let text := (← get).space.toArray
  let (new, done) ← replaceFrom s text (2 * text.size + 2) 0 0 none
  if done then
    modify fun p => { p with space := new, replaced := true }
    if s.prints then putLine new
    if let some path := s.file then addTo path new

/-- A line in a form in which all characters can be seen. -/
def visible (cs : List Char) : List Char :=
  cs.flatMap fun c =>
    if c = '\\' then ['\\', '\\'] else if isVisible c then [c] else '\\' :: escapeMark c

/-- Takes the next line, if there is one. -/
def takeLine : Run (Option (List Char)) := do
  let p ← get
  match p.input with
  | [] => return none
  | l :: rest =>
    let text := lineText l
    set { p with input := rest, line := p.line + 1, ends := text.length < l.length }
    return some text

/-- Writes what belongs behind the line. -/
def flushBehind : Run Unit := do
  for b in (← get).behind do
    match b with
    | .inl cs => put (cs ++ ['\n'])
    | .inr path =>
      if let .ok t ← (contents path : Act _) then put t.toList
  modify fun p => { p with behind := [] }

/-- Does what a letter stands for. -/
def letter (c : Char) : Run Step := do
  let p ← get
  match c with
  | '=' => put (digitsOf p.line ++ ['\n'])
  | 'd' => return .line false
  | 'D' =>
    match p.space.dropWhile (· ≠ '\n') with
    | [] => return .line false
    | _ :: rest =>
      set { p with space := rest, again := true }
      return .line false
  | 'F' => put (p.name.toList ++ ['\n'])
  | 'g' => set { p with space := p.aside }
  | 'G' => set { p with space := p.space ++ '\n' :: p.aside }
  | 'h' => set { p with aside := p.space }
  | 'H' => set { p with aside := p.aside ++ '\n' :: p.space }
  | 'l' => put (visible p.space ++ ['$', '\n'])
  | 'n' =>
    if p.input.isEmpty then return .stop true 0
    if !p.quiet then putLine p.space
    flushBehind
    if let some l ← takeLine then modify fun p => { p with space := l }
  | 'N' =>
    if p.input.isEmpty then return .stop true 0
    flushBehind
    if let some l ← takeLine then modify fun p => { p with space := p.space ++ '\n' :: l }
  | 'p' => putLine p.space
  | 'P' => put (p.space.takeWhile (· ≠ '\n') ++ ['\n'])
  | 'x' => set { p with space := p.aside, aside := p.space }
  | _ => set { p with space := [] }
  return .next

/-- Does what a command says; `k` is its number, and `cs` are all commands. -/
def act (cs : Array Command) (k : Nat) (c : Command) : Run Step := do
  match c.action with
  | .letter l => letter l
  | .substitute s =>
    substitute s
    return .next
  | .exchange pairs =>
    modify fun p => { p with space := p.space.map fun d => (pairs.lookup d).getD d }
    return .next
  | .write 'a' text =>
    modify fun p => { p with behind := p.behind ++ [.inl text] }
    return .next
  | .write 'i' text =>
    put (text ++ ['\n'])
    return .next
  | .write _ text =>
    let isLast := c.negated || c.second.isNone || ((← get).begun.lookup k).isNone
    if isLast then put (text ++ ['\n'])
    return .line false
  | .jump mark name =>
    let p ← get
    let goes := mark = 'b' || (mark = 't') = p.replaced
    if mark ≠ 'b' then set { p with replaced := false }
    if !goes then return .next
    if name = "" then return .line true
    let target := cs.toList.findIdx? fun d => match d.action with
      | .label other => other = name
      | _ => false
    return .go (target.getD cs.size)
  | .quit 'q' status => return .stop true status
  | .quit _ status => return .stop false status
  | .file 'r' path =>
    modify fun p => { p with behind := p.behind ++ [.inr path] }
    return .next
  | .file _ path =>
    addTo path (← get).space
    return .next
  | .label _ | .block | .stop => return .next

/-- The number of the command behind the end of a block. -/
def behindBlock (cs : Array Command) : Nat → (depth k : Nat) → Nat
  | 0, _, k => k
  | n + 1, depth, k =>
    match cs[k]?.map Command.action with
    | none => k
    | some .block => behindBlock cs n (depth + 1) (k + 1)
    | some .stop => if depth = 0 then k + 1 else behindBlock cs n (depth - 1) (k + 1)
    | some _ => behindBlock cs n depth (k + 1)

/-- How many commands may be run for a line. -/
def commandLimit : Nat := 10000000

/-- Runs the commands from one on. The first number bounds how many. -/
def runFrom (cs : Array Command) : Nat → Nat → Run Step
  | 0, _ => return .line true
  | n + 1, k => do
    match cs[k]? with
    | none => return .line true
    | some c =>
      if ← isMeant k c then
        match ← act cs k c with
        | .next => runFrom cs n (k + 1)
        | .go j => runFrom cs n j
        | step => return step
      else
        match c.action with
        | .block => runFrom cs n (behindBlock cs (cs.size + 1) 0 (k + 1))
        | _ => runFrom cs n (k + 1)

/-- Ends the work on a line. -/
def finishLine (writes : Bool) : Run Unit := do
  let p ← get
  if writes && !p.quiet then putLine p.space
  flushBehind

/-- Runs the commands for each line; gives the number with which the program ends. The first number bounds
the lines. -/
def runLines (cs : Array Command) : Nat → Run Nat
  | 0 => return 0
  | n + 1 => do
    let p ← get
    if p.again then set { p with again := false }
    else match ← takeLine with
      | none => return 0
      | some l => modify fun p => { p with space := l, replaced := false }
    if (← get).line = 0 then return 0
    match ← runFrom cs commandLimit 0 with
    | .stop writes status =>
      finishLine writes
      return status
    | .line writes =>
      finishLine writes
      runLines cs n
    | _ =>
      finishLine true
      runLines cs n

end Stepflow.Shell.Program.Edit

/-!
## The command

A script is run over the lines of files, as if they were one, or over each file in its place.
-/

namespace Stepflow.Shell.Program.Edit

open Act

/-- The options. -/
def options : Options :=
  { plain := ['E', 'n', 'r', 's', 'u', 'z'], valued := ['e', 'f'], optional := ['i']
    words := [("expression", 'e', true), ("file", 'f', true), ("quiet", 'n', false), ("silent", 'n', false),
      ("regexp-extended", 'E', false), ("separate", 's', false), ("unbuffered", 'u', false),
      ("in-place", 'i', false), ("null-data", 'z', false)] }

/-- Whether an expression is missing that was used before. -/
def lacksPattern (cs : List Command) : Bool :=
  let of : Command → List (Option Regular) := fun c =>
    let address : Option Address → List (Option Regular) := fun
      | some (.fits p) => [p.expression]
      | _ => []
    address c.first ++ address c.second ++ match c.action with
      | .substitute s => [s.pattern.expression]
      | _ => []
  match (cs.flatMap of).head? with
  | some none => true
  | _ => false

/-- The number with which the program ends if a script is wrong. -/
def flawStatus : Nat := 1

/-- The number with which the program ends if it cannot go on. -/
def panicStatus : Nat := 4

/-- Complains about a script. -/
def complainOfScript (number : Nat) (script : List Char) (f : Flaw) : Act Nat := do
  let place := if f.whole then 0 else script.length - f.rest.length
  complain ("-e expression #" ++ toString number ++ ", char " ++ toString place ++ ": " ++ f.message)
  return flawStatus

/-- The lines of files; what cannot be read is told, and gives the number with which the program ends. -/
def linesOf (names : List String) : Act (List (List Char) × Nat) := do
  let mut all : List (List (List Char)) := []
  let mut status := 0
  for name in names do
    match ← contents name with
    | .ok t => all := lines t :: all
    | .error (.obstacle .isDirectory) =>
      complain ("read error on " ++ name ++ ": " ++ Trouble.reason (.obstacle .isDirectory))
      status := panicStatus
    | .error t =>
      complain ("can't read " ++ name ++ ": " ++ t.reason)
      status := max status 2
  -- Only the very last line may lack its end.
  let ls := all.reverse.flatten
  let joined := ((List.range ls.length).zip ls).map fun (k, l) =>
    if k + 1 < ls.length && l.getLast? ≠ some '\n' then l ++ ['\n'] else l
  return (joined, status)

/-- Runs commands over lines; gives the output and the number with which the program ends. -/
def edit (cs : List Command) (quiet : Bool) (name : String) (input : List (List Char)) :
    Act (List Char × Nat) := do
  let start : Place := { input, quiet, name }
  let bound := input.foldl (fun n line => n + line.length + 1) 1
  let (status, p) ← (runLines cs.toArray bound).run start
  for (path, cs) in p.files.reverse do
    let _ ← writePath .write path (String.ofList cs)
  return (p.output.reverse.flatten, status)

/-- Edits each file in its place. -/
def editInPlace (cs : List Command) (quiet : Bool) (suffix : Option String) (names : List String) :
    Act Nat :=
  forEach names fun name => do
    match ← readPath name with
    | .error (.obstacle .isDirectory) =>
      complain ("couldn't edit " ++ name ++ ": not a regular file")
      return panicStatus
    | .error t =>
      complain ("can't read " ++ name ++ ": " ++ t.reason)
      return 2
    | .ok t =>
      let (output, status) ← edit cs quiet name (lines t)
      if let some suffix := suffix then
        let _ ← writePath .write (name ++ suffix) t
      let _ ← writePath .write name (String.ofList output)
      return status

/-- Runs a script over files. -/
def runScript (a : Arguments) (cs : List Command) (names : List String) : Act Nat := do
  let quiet := a.has 'n'
  if a.has 'i' then editInPlace cs quiet (a.value? 'i') names
  else
    let (input, found) ← linesOf (inputs names)
    let (output, status) ← edit cs quiet ((inputs names).headD "-") input
    emit (String.ofList output)
    return max found status

/-- The scripts that options and arguments give, and the arguments that are left. -/
def scripts (a : Arguments) : Act (Option (List Char × List String)) := do
  let mut parts : List (List Char) := []
  for (letter, value) in a.options do
    let value := value.getD ""
    if letter = 'e' then parts := parts ++ [value.toList]
    else if letter = 'f' then
      match ← contents value with
      | .ok t => parts := parts ++ [(lineTexts t |> ['\n'].intercalate)]
      | .error t =>
        complain ("couldn't open file " ++ value ++ ": " ++ t.reason)
        return none
  if parts.isEmpty then
    match a.operands with
    | [] => return none
    | script :: names => return some (script.toList, names)
  return some (['\n'].intercalate parts, a.operands)

/-- Edits lines by a script. -/
def program : Body := options.program flawStatus fun a => do
  match ← scripts a with
  | none => return flawStatus
  | some (script, names) =>
    match commands (a.has 'E' || a.has 'r') (script.length + 1) 0 script with
    | .error f => complainOfScript 1 script f
    | .ok cs =>
      if let some name := missingLabel? cs then
        complain ("can't find label for jump to `" ++ name ++ "'")
        return panicStatus
      if lacksPattern cs then
        complainOfScript 1 script { message := "no previous regular expression", rest := [], whole := true }
      else
        let a := if script.take 3 = ['#', 'n', '\n'] || script = ['#', 'n'] then
          { a with options := ('n', none) :: a.options } else a
        runScript a cs names

end Stepflow.Shell.Program.Edit
