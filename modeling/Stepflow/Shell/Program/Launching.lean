import Stepflow.Shell.Program.Words

/-!
# Programs that start others

They are given a way to start a program: by its name, which is shown in its complaints, and with its
arguments.
-/

namespace Stepflow.Shell.Program

open Act

/-- A way to start a program, which may not be found. -/
abbrev Launcher := String → List String → Act (Except Trouble Exit)

/-- The number with which a program ends that cannot find another one. -/
def missingProgram : Nat := 127

/-- The number with which a program ends that cannot start another one. -/
def forbiddenProgram : Nat := 126

/-- The number with which a program ends that could not start another one. -/
def startStatus (t : Trouble) : Nat := if t.isMissing then missingProgram else forbiddenProgram

/-- Lets another program take the place of this one. -/
def become (launch : Launcher) (shownName : String → String) (name : String) (arguments : List String) :
    Act Nat := do
  match ← launch name arguments with
  | .ok (.exited n) => return n
  | .ok (.killed signal) => throw (.killed (← session).process signal)
  | .error t =>
    complain (shownName name ++ ": " ++ t.reason)
    return startStatus t

namespace Env

/-- The options. -/
def options : Options :=
  { plain := ['i', '0', 'v'], valued := ['u', 'C', 'S'], leading := true
    words := [("ignore-environment", 'i', false), ("unset", 'u', true), ("null", '0', false),
      ("chdir", 'C', true)] }

/-- Sets the variables at the start of words; gives the other words. -/
def assignments : List String → Act (List String)
  | [] => return []
  | w :: rest => do
    match splitAssignment w with
    | (name, some v) =>
      change fun s => s.put name { value := some v, exported := true }
      assignments rest
    | (_, none) => return w :: rest

/-- Runs a program with other variables, or shows the variables. -/
def program (launch : Launcher) : Body := options.program 125 fun a => do
  let (clears, words) := match a.operands with
    | "-" :: rest => (true, rest)
    | words => (a.has 'i', words)
  let path ← value "PATH"
  if clears then change fun s => { s with found := fun _ => none, ownVariables := [] }
  for (letter, name) in a.options do
    if letter = 'u' then change fun s => s.put (name.getD "") {}
  match ← assignments words with
  | [] =>
    for (name, value) in exportedVariables (← session) do
      emit (name ++ "=" ++ value ++ if a.has '0' then "\x00" else "\n")
    return 0
  | name :: arguments =>
    let places := ((← session).value? "PATH").getD path
    let look (name : String) (arguments : List String) : Act (Except Trouble Exit) := do
      let before ← session
      if (before.value? "PATH").isNone then change fun s => s.put "PATH" { value := some places }
      launch name arguments
    become look quoted name arguments

end Env

namespace Xargs

/-- How what is read is divided. -/
inductive Division where
  /-- At blanks and ends of lines, with quotes. -/
  | words
  /-- At ends of lines, with quotes. -/
  | lines
  /-- At a character. -/
  | mark (c : Char)

/-- Takes one item: what it is, and what is left. `quote` is the quotation mark that is open; `begun` says
that there is something. Nothing is given if a quotation mark is not closed in its line. -/
def item (stops : Char → Bool) : (quote : Option Char) → (begun : Bool) → List Char → List Char →
    Except Char (Option (List Char) × List Char)
  | some q, _, _, [] => .error q
  | none, begun, done, [] => .ok (if begun then some done.reverse else none, [])
  | some q, begun, done, c :: rest =>
    if c = q then item stops none begun done rest
    else if c = '\n' then .error q
    else item stops (some q) begun (c :: done) rest
  | none, begun, done, c :: rest =>
    if c = '\'' || c = '"' then item stops (some c) true done rest
    else if c = '\\' then
      match rest with
      | d :: rest => item stops none true (d :: done) rest
      | [] => .ok (if begun then some done.reverse else none, [])
    else if stops c then
      if begun then .ok (some done.reverse, rest) else item stops none false done rest
    else if !begun && (c = ' ' || c = '\t') then item stops none false done rest
    else item stops none true (c :: done) rest

/-- All items. The first number bounds them. -/
def items (stops : Char → Bool) : Nat → List Char → Except Char (List String)
  | 0, _ => .ok []
  | n + 1, cs =>
    match item stops none false [] cs with
    | .error q => .error q
    | .ok (none, _) => .ok []
    | .ok (some i, rest) => (items stops n rest).map (String.ofList i :: ·)

/-- The items in a text. -/
def divide (d : Division) (t : String) : Except Char (List String) :=
  let cs := t.toList
  match d with
  | .words => items (fun c => c = ' ' || c = '\t' || c = '\n') cs.length cs
  | .lines => items (· = '\n') cs.length cs
  | .mark c =>
    let parts := Text.splitAt c cs
    .ok ((if parts.getLast? = some [] then parts.dropLast else parts).map String.ofList)

/-- Lists of so many items. -/
def groups (n : Nat) (xs : List String) : List (List String) := go xs.length xs
where
  /-- Takes one list after the other. -/
  go : Nat → List String → List (List String)
    | 0, _ => []
    | k + 1, xs => if xs.isEmpty then [] else xs.take n :: go k (xs.drop n)

/-- The options. -/
def options : Options :=
  { plain := ['0', 'p', 'r', 't', 'x'], valued := ['I', 'n', 'L', 'P', 's', 'd', 'a', 'E'], leading := true
    optional := ['i', 'l', 'e']
    words := [("null", '0', false), ("no-run-if-empty", 'r', false), ("verbose", 't', false),
      ("max-args", 'n', true), ("max-lines", 'L', true), ("max-procs", 'P', true),
      ("delimiter", 'd', true)] }

/-- The character that divides items. -/
def separator (value : String) : Char :=
  match value.toList with
  | '\\' :: c :: _ => (Escapes.readFree ('\\' :: [c])).1
  | c :: _ => c
  | [] => '\x00'

/-- A text in which a mark is replaced by another text. The number bounds how often. -/
def replaced (mark new : List Char) : Nat → List Char → List Char
  | 0, cs => cs
  | _, [] => []
  | n + 1, c :: cs =>
    if !mark.isEmpty && mark.isPrefixOf (c :: cs) then new ++ replaced mark new n ((c :: cs).drop mark.length)
    else c :: replaced mark new n cs

/-- The number with which the program ends behind another one, and whether it ends at once. -/
def after (name : String) : Exit → Act (Nat × Bool)
  | .exited 0 => return (0, false)
  | .exited 255 => do
    complain (name ++ ": exited with status 255; aborting")
    return (124, true)
  | .exited _ => return (123, false)
  | .killed signal => do
    complain (name ++ ": terminated by signal " ++ toString signal)
    return (125, true)

/-- Runs commands one after the other. -/
def runAll (launch : Launcher) (shows : Bool) : (status : Nat) → List (List String) → Act Nat
  | status, [] => return status
  | status, words :: rest => do
    let name := words.headD ""
    if shows then putError (" ".intercalate (words.map shown) ++ "\n")
    match ← launch name words.tail with
    | .error t =>
      complain (name ++ ": " ++ t.reason)
      return startStatus t
    | .ok e =>
      let (new, stops) ← after name e
      if stops then return new
      runAll launch shows (max status new) rest

/-- The commands for items. -/
def commands (a : Arguments) (d : Division) (words items : List String) (t : String) : List (List String) :=
  match (a.value? 'I').orElse fun _ => if a.has 'i' then some ((a.value? 'i').getD "\x7b\x7d") else none with
  | some mark =>
    items.map fun i => words.map fun w =>
      String.ofList (replaced mark.toList i.toList w.length w.toList)
  | none =>
    let size := (a.value? 'n').bind String.toNat?
    let lists := match size, (a.value? 'L').bind String.toNat? with
      | some n, _ => groups n items
      | none, some n =>
        let ls := (Text.splitAt '\n' t.toList).filter fun l => !l.isEmpty
        let rows := ls.map fun l => ((divide d (String.ofList l)).toOption).getD []
        (go n rows.length rows).map List.flatten
      | none, none => if items.isEmpty then [] else [items]
    let lists := if lists.isEmpty && !a.has 'r' then [[]] else lists
    lists.map (words ++ ·)
where
  /-- Lists of so many rows. -/
  go (n : Nat) : Nat → List (List String) → List (List (List String))
    | 0, _ => []
    | k + 1, rows => if rows.isEmpty then [] else rows.take n :: go n k (rows.drop n)

/-- Runs a program with arguments that are read. -/
def program (launch : Launcher) : Body := options.program 1 fun a => do
  let division : Division :=
    if a.has '0' then .mark '\x00'
    else match a.value? 'd' with
      | some v => .mark (separator v)
      | none => if a.has 'I' || a.has 'i' then .lines else .words
  let words := if a.operands.isEmpty then ["echo"] else a.operands
  if ((a.value? 'n').bind String.toNat?) = some 0 then
    return ← misused 1 "value 0 for -n option should be >= 1"
  match ← readAll 0 with
  | .error t => failing ("read error: " ++ t.reason)
  | .ok t =>
    match divide division t with
    | .error q =>
      let kind := if q = '\'' then "single" else "double"
      complain ("unmatched " ++ kind ++
        " quote; by default quotes are special to xargs unless you use the -0 option")
      -- What was read before is still an argument of the last command.
      return 1
    | .ok items =>
      let nothing ← openStream { channel := .nowhere, reads := true }
      connect 0 (some nothing)
      runAll launch (a.has 't') 0 (commands a division words items t)

end Xargs

/-- Runs a program with a lower rank, which changes nothing here. -/
def nice (launch : Launcher) : Body :=
  Options.program { valued := ['n'], leading := true } 125 fun a => do
    match a.operands with
    | [] =>
      emit "0\n"
      return 0
    | name :: arguments => become launch quoted name arguments

end Stepflow.Shell.Program
