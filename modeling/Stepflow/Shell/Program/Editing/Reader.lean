import Stepflow.Shell.Calculation
import Stepflow.Shell.Regular

/-!
# Scripts for editing lines

A script is a list of commands. It is run for each line that is read, with the line in a space in which
commands change it; what is in the space at the end is written. Commands may be for some lines only: those
with a number, those that an expression fits, or all from one to another.
-/

namespace Stepflow.Shell.Program.Edit

/-- An expression with its marks; none stands for the one that was used last. -/
structure Pattern where
  /-- The expression. -/
  expression : Option Regular
  /-- Whether capitals and small letters count the same. -/
  folds : Bool := false

/-- Which lines a command is for. -/
inductive Address where
  /-- The line with a number. -/
  | line (n : Nat)
  /-- Every so many lines from one on. -/
  | every (first step : Nat)
  /-- The last line. -/
  | last
  /-- The lines that an expression fits. -/
  | fits (p : Pattern)
  /-- So many lines more. -/
  | more (n : Nat)
  /-- The lines up to a multiple of a number. -/
  | multiple (n : Nat)

/-- A piece of a replacement. -/
inductive Piece where
  /-- A text. -/
  | text (cs : List Char)
  /-- What was remembered under a number; zero is all. -/
  | group (n : Nat)
  /-- A change of the letters that follow. -/
  | letters (mark : Char)

/-- A replacement of what an expression fits. -/
structure Substitution where
  /-- The expression. -/
  pattern : Pattern
  /-- What stands for it. -/
  pieces : List Piece
  /-- Whether all that fits is replaced. -/
  all : Bool := false
  /-- Which one is replaced first. -/
  number : Nat := 1
  /-- Whether the space is written afterwards. -/
  prints : Bool := false
  /-- The file to which the space is written afterwards. -/
  file : Option String := none

/-- What a command does. -/
inductive Action where
  /-- What a letter stands for that needs nothing else. -/
  | letter (c : Char)
  /-- Replaces what an expression fits. -/
  | substitute (s : Substitution)
  /-- Replaces characters. -/
  | exchange (pairs : List (Char × Char))
  /-- Writes a text: in front of the line, behind it, or in its place. -/
  | write (c : Char) (text : List Char)
  /-- Goes to a label: always, if something was replaced, or if nothing was. -/
  | jump (c : Char) (label : String)
  /-- A label. -/
  | label (name : String)
  /-- Ends with a number. -/
  | quit (c : Char) (status : Nat)
  /-- Reads a file, or writes to one. -/
  | file (c : Char) (path : String)
  /-- Passes over the commands up to the end of a block for lines that are not meant. -/
  | block
  /-- The end of a block. -/
  | stop

/-- A command. -/
structure Command where
  /-- The first line it is for. -/
  first : Option Address := none
  /-- The last line it is for. -/
  second : Option Address := none
  /-- Whether it is for the other lines instead. -/
  negated : Bool := false
  /-- What it does. -/
  action : Action

/-!
## Reading scripts

A command is one letter, behind the addresses of the lines that it is for, and what the letter asks for.
Commands end with a line or a semicolon. What is wrong is told with the place up to which was read.
-/

/-- What is wrong with a script, and what is left of it. -/
structure Flaw where
  /-- The wording. -/
  message : String
  /-- What is left. -/
  rest : List Char
  /-- Whether no place is told. -/
  whole : Bool := false

/-- How the commands are named in complaints that write text. -/
def textCommands : String := "expected \\ after `a', `c' or `i'"

/-- Takes characters up to a mark; the mark may stand between brackets if `classes` is set. A reverse
solidus keeps the character behind it, and is dropped in front of the mark. -/
def upTo (mark : Char) (classes : Bool) : (inside : Nat) → List Char → Option (List Char × List Char)
  | _, [] => none
  | inside, '\\' :: c :: rest =>
    if inside > 0 then (upTo mark classes 2 (c :: rest)).map fun (x, r) => ('\\' :: x, r)
    else if c = mark then
      let shown := if mark = '/' || !classes then [c] else ['\\', c]
      (upTo mark classes 0 rest).map fun (x, r) => (shown ++ x, r)
    else (upTo mark classes 0 rest).map fun (x, r) => ('\\' :: c :: x, r)
  | inside, c :: rest =>
    if inside = 0 then
      if c = mark then some ([], rest)
      else (upTo mark classes (if c = '[' && classes then 1 else 0) rest).map fun (x, r) => (c :: x, r)
    else
      let next := if c = ']' && inside > 1 then 0 else if c = '^' && inside = 1 then 1 else 2
      (upTo mark classes next rest).map fun (x, r) => (c :: x, r)

/-- The blanks that may stand in front of commands. -/
def isBlank (c : Char) : Bool := c = ' ' || ('\t' ≤ c && c ≤ '\r' && c ≠ '\n')

/-- What is left behind blanks. -/
def skipBlanks (cs : List Char) : List Char := cs.dropWhile isBlank

/-- Takes a number. -/
def takeNumber (cs : List Char) : Nat × List Char :=
  let digits := cs.takeWhile Char.isDigit
  (digits.foldl (fun n c => n * 10 + (c.toNat - '0'.toNat)) 0, cs.drop digits.length)

/-- Reads an expression. -/
def patternOf (extended folds : Bool) (cs rest : List Char) : Except Flaw Pattern :=
  if cs.isEmpty then .ok { expression := none }
  else match Regular.read { extended, escapes := true } cs with
    | .ok r => .ok { expression := some r, folds }
    | .error e => .error { message := e.message, rest }

/-- Takes an address. -/
def takeAddress (extended second : Bool) (cs : List Char) : Except Flaw (Option Address × List Char) :=
  let fitting (mark : Char) (rest : List Char) : Except Flaw (Option Address × List Char) :=
    match upTo mark true 0 rest with
    | none => .error { message := "unterminated address regex", rest := [] }
    | some (p, rest) => do
      let marks := rest.takeWhile fun c => c = 'I' || c = 'M'
      let rest := rest.drop marks.length
      let p ← patternOf extended (marks.contains 'I') p rest
      return (some (.fits p), rest)
  match cs with
  | '$' :: rest => .ok (some .last, rest)
  | '/' :: rest => fitting '/' rest
  | '\\' :: mark :: rest => fitting mark rest
  | c :: rest =>
    if c.isDigit then
      let (n, rest) := takeNumber cs
      match rest with
      | '~' :: more =>
        let (step, rest) := takeNumber more
        .ok (some (.every n step), rest)
      | _ => .ok (some (.line n), rest)
    else if c = '+' || c = '~' then
      if second then
        let (n, rest) := takeNumber rest
        .ok (some (if c = '+' then .more n else .multiple n), rest)
      else
        let rest := rest.dropWhile Char.isDigit
        .error { message := "invalid usage of +N or ~N as first address", rest }
    else .ok (none, cs)
  | [] => .ok (none, [])

/-- What ends a command: the end of the line, a semicolon, or what ends a block or begins a comment. -/
def takeEnd (cs : List Char) : Except Flaw (List Char) :=
  match skipBlanks cs with
  | [] => .ok []
  | c :: rest =>
    if c = '\n' || c = ';' then .ok rest
    else if c = '\x7d' || c = '#' then .ok (c :: rest)
    else .error { message := "extra characters after command", rest }

/-- Takes a name: up to the end of the line, or a semicolon or a blank if it is that of a label. -/
def takeName (cs : List Char) : String × List Char :=
  let cs := skipBlanks cs
  let name := cs.takeWhile fun c => c ≠ '\n' && c ≠ ';' && !isBlank c
  (String.ofList name, cs.drop name.length)

/-- Takes a text that ends with a line behind which none goes on. -/
def takeText : List Char → List Char × List Char
  | [] => ([], [])
  | '\\' :: c :: rest =>
    let (text, rest) := takeText rest
    (c :: text, rest)
  | '\n' :: rest => ([], rest)
  | c :: rest =>
    let (text, rest) := takeText rest
    (c :: text, rest)

/-- Takes a character that is given by its number, behind a letter for the base. -/
def takeCode (letter : Char) (cs : List Char) : Option (Char × List Char) :=
  match [('d', 10, 3), ('o', 8, 3), ('x', 16, 2)].lookup letter with
  | none => none
  | some (base, most) =>
    let digits := (cs.take most).takeWhile fun c => Calculation.digitValue c < base
    if digits.isEmpty then none
    else
      let n := digits.foldl (fun n c => n * base + Calculation.digitValue c) 0
      some (Char.ofNat (n % 256), cs.drop digits.length)

/-- The pieces of a replacement. The first text is what was gathered, the last character first;
the number bounds the pieces. -/
def piecesOf : Nat → (text : List Char) → List Char → List Piece
  | 0, text, _ | _, text, [] => if text.isEmpty then [] else [.text text.reverse]
  | n + 1, text, '&' :: rest => .text text.reverse :: .group 0 :: piecesOf n [] rest
  | n + 1, text, '\\' :: c :: rest =>
    let mark (p : Piece) : List Piece := .text text.reverse :: p :: piecesOf n [] rest
    if c.isDigit then mark (.group (c.toNat - '0'.toNat))
    else if ['L', 'U', 'l', 'u', 'E'].contains c then mark (.letters c)
    else match takeCode c rest with
      | some (d, rest) => piecesOf n (d :: text) rest
      | none => piecesOf n ((Regular.escapedChars.lookup c).getD c :: text) rest
  | n + 1, text, c :: rest => piecesOf n (c :: text) rest

/-- The greatest number of a group in an expression. -/
def greatestGroup : Regular → Nat
  | .both a b | .either a b => max (greatestGroup a) (greatestGroup b)
  | .times a _ _ => greatestGroup a
  | .group n a => max n (greatestGroup a)
  | _ => 0

/-- Takes the marks behind a replacement. The first number bounds their number. -/
def takeMarks : Nat → (numbered : Bool) → Substitution → (folds : Bool) → List Char →
    Except Flaw ((Substitution × Bool) × List Char)
  | 0, _, s, folds, cs => .ok ((s, folds), cs)
  | n + 1, numbered, s, folds, cs =>
    match cs with
    | [] => .ok ((s, folds), [])
    | c :: rest =>
      if c = 'g' then
        if s.all then .error { message := "multiple `g' options to `s' command", rest }
        else takeMarks n numbered { s with all := true } folds rest
      else if c = 'p' then
        if s.prints then .error { message := "multiple `p' options to `s' command", rest }
        else takeMarks n numbered { s with prints := true } folds rest
      else if c = 'i' || c = 'I' then takeMarks n numbered s true rest
      else if c = 'm' || c = 'M' || isBlank c then takeMarks n numbered s folds rest
      else if c = 'w' then
        let path := (skipBlanks rest).takeWhile (· ≠ '\n')
        .ok (({ s with file := some (String.ofList path) }, folds), (skipBlanks rest).drop path.length)
      else if c.isDigit then
        let (number, rest) := takeNumber cs
        if numbered then .error { message := "multiple number options to `s' command", rest }
        else if number = 0 then .error { message := "number option to `s' command may not be zero", rest }
        else takeMarks n true { s with number } folds rest
      else if c = '\n' || c = ';' then .ok ((s, folds), rest)
      else if c = '\x7d' || c = '#' then .ok ((s, folds), cs)
      else .error { message := "unknown option to `s'", rest }

/-- Takes a replacement, behind its letter. -/
def takeSubstitution (extended : Bool) (cs : List Char) : Except Flaw (Action × List Char) :=
  let unterminated : Flaw := { message := "unterminated `s' command", rest := [] }
  match cs with
  | [] => .error unterminated
  | mark :: rest =>
    match upTo mark true 0 rest with
    | none => .error unterminated
    | some (pattern, rest) =>
      match upTo mark false 0 rest with
      | none => .error unterminated
      | some (replacement, rest) => do
        let pieces := piecesOf (replacement.length + 1) [] replacement
        let plain : Substitution := { pattern := ⟨none, false⟩, pieces }
        let ((s, folds), rest) ← takeMarks (rest.length + 1) false plain false rest
        let p ← patternOf extended folds pattern rest
        let wanted := pieces.foldl (fun n x => match x with
          | .group k => max n k
          | _ => n) 0
        match p.expression with
        | some r =>
          if wanted > greatestGroup r then
            throw { message := "invalid reference \\" ++ toString wanted ++ " on `s' command's RHS", rest }
        | none => pure ()
        return (.substitute { s with pattern := p }, rest)

/-- The characters of a text in which a reverse solidus stands in front of some. -/
def plainChars : List Char → List Char
  | '\\' :: c :: rest => ((Regular.escapedChars.lookup c).getD c) :: plainChars rest
  | c :: rest => c :: plainChars rest
  | [] => []

/-- Takes an exchange of characters, behind its letter. -/
def takeExchange (cs : List Char) : Except Flaw (Action × List Char) :=
  let unterminated : Flaw := { message := "unterminated `y' command", rest := [] }
  match cs with
  | [] => .error unterminated
  | mark :: rest =>
    match upTo mark false 0 rest with
    | none => .error unterminated
    | some (old, rest) =>
      match upTo mark false 0 rest with
      | none => .error unterminated
      | some (new, rest) => do
        let old := plainChars old
        let new := plainChars new
        if old.length ≠ new.length then
          throw { message := "strings for `y' command are different lengths", rest }
        let rest ← takeEnd rest
        return (.exchange (old.zip new), rest)

/-- The letters of commands that need nothing else. -/
def plainLetters : List Char := ['=', 'd', 'D', 'F', 'g', 'G', 'h', 'H', 'l', 'n', 'N', 'p', 'P', 'x', 'z']

/-- Takes what a command does. -/
def takeAction (extended : Bool) (cs : List Char) : Except Flaw (Action × List Char) :=
  match cs with
  | [] => .error { message := "missing command", rest := [] }
  | c :: rest =>
    if plainLetters.contains c then do return (.letter c, ← takeEnd rest)
    else if c = '\x7b' then .ok (.block, rest)
    else if c = '\x7d' then do return (.stop, ← takeEnd rest)
    else if c = 's' then takeSubstitution extended rest
    else if c = 'y' then takeExchange rest
    else if c = 'a' || c = 'i' || c = 'c' then
      match skipBlanks rest with
      | [] => .error { message := textCommands, rest := [] }
      | '\\' :: more =>
        let text := match skipBlanks more with
          | '\n' :: below => below
          | _ => more
        let (text, rest) := takeText text
        if text.isEmpty && more.isEmpty then .error { message := textCommands, rest := [] }
        else .ok (.write c text, rest)
      | more =>
        let (text, rest) := takeText more
        .ok (.write c text, rest)
    else if c = ':' then
      let (name, rest) := takeName rest
      if name = "" then .error { message := "\":\" lacks a label", rest }
      else .ok (.label name, rest)
    else if c = 'b' || c = 't' || c = 'T' then do
      let (name, rest) := takeName rest
      let name := String.ofList (name.toList.takeWhile (· ≠ '\x7d'))
      return (.jump c name, ← takeEnd rest)
    else if c = 'q' || c = 'Q' then do
      let (status, rest) := takeNumber (skipBlanks rest)
      return (.quit c status, ← takeEnd rest)
    else if c = 'r' || c = 'w' then
      let path := (skipBlanks rest).takeWhile (· ≠ '\n')
      if path.isEmpty then .error { message := "missing filename in r/R/w/W commands", rest }
      else .ok (.file c (String.ofList path), (skipBlanks rest).drop path.length)
    else if c = 'v' then .ok (.label "", rest.dropWhile fun c => c ≠ '\n' && c ≠ ';')
    else .error { message := "unknown command: `" ++ String.singleton c ++ "'", rest }

/-- Whether a command may be for one line only. -/
def takesOne : Action → Bool
  | .quit .. => true
  | _ => false

/-- Takes the addresses in front of a command. -/
def takeAddresses (extended : Bool) (cs : List Char) :
    Except Flaw ((Option Address × Option Address × Bool) × List Char) := do
  let (first, rest) ← takeAddress extended false cs
  let (second, rest) ← match first, skipBlanks rest with
    | some _, ',' :: more =>
      match ← takeAddress extended true (skipBlanks more) with
      | (none, rest) => .error { message := "unexpected `,'", rest := rest.drop 1 }
      | found => .ok found
    | _, _ => .ok (none, rest)
  match first, second with
  | some (.line 0), some (.fits _) => pure ()
  | some (.line 0), _ => throw { message := "invalid usage of line address 0", rest := rest.drop 1 }
  | _, _ => pure ()
  match skipBlanks rest with
  | '!' :: more => return ((first, second, true), more.dropWhile fun c => isBlank c || c = '!')
  | rest => return ((first, second, false), rest)

/-- Reads the commands of a script; `depth` is the number of blocks around. -/
def commands (extended : Bool) : Nat → (depth : Nat) → List Char → Except Flaw (List Command)
  | 0, _, _ => .ok []
  | n + 1, depth, cs =>
    match cs.dropWhile fun c => isBlank c || c = '\n' || c = ';' with
    | [] => if depth > 0 then .error { message := "unmatched `\x7b'", rest := [], whole := true } else .ok []
    | '#' :: rest => commands extended n depth (rest.dropWhile (· ≠ '\n'))
    | cs => do
      let ((first, second, negated), rest) ← takeAddresses extended cs
      if let ':' :: more := rest then
        if first.isSome then throw { message := ": doesn't want any addresses", rest := more }
      if let '#' :: more := rest then throw { message := "comments don't accept any addresses", rest := more }
      let (action, rest) ← takeAction extended rest
      if takesOne action && second.isSome then
        throw { message := "command only uses one address", rest }
      let depth ← match action with
        | .block => pure (depth + 1)
        | .stop => if depth = 0 then throw { message := "unexpected `\x7d'", rest } else pure (depth - 1)
        | _ => pure depth
      return { first, second, negated, action } :: (← commands extended n depth rest)

/-- The label of a jump to which there is none. -/
def missingLabel? (cs : List Command) : Option String :=
  cs.findSome? fun c => match c.action with
    | .jump _ name =>
      let found := name = "" || cs.any fun d => match d.action with
        | .label other => other = name
        | _ => false
      if found then none else some name
    | _ => none

end Stepflow.Shell.Program.Edit
