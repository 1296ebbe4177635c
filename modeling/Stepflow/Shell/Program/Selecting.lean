import Stepflow.Shell.Program.Showing
import Stepflow.Shell.Regular

/-!
# Selecting lines

Lines are selected in which an expression is found, or in which none is. They are written, or counted, or
only the names of the files are written that have some.
-/

namespace Stepflow.Shell.Program.Select

open Act

/-- The options. -/
def options : Options :=
  { plain := ['E', 'F', 'G', 'H', 'I', 'L', 'P', 'R', 'a', 'b', 'c', 'h', 'i', 'l', 'n', 'o', 'q', 'r', 's',
      'v', 'w', 'x', 'y', '0', '1', '2', '3', '4', '5', '6', '7', '8', '9']
    valued := ['A', 'B', 'C', 'e', 'f', 'm']
    words := [("extended-regexp", 'E', false), ("fixed-strings", 'F', false), ("basic-regexp", 'G', false),
      ("with-filename", 'H', false), ("files-without-match", 'L', false), ("recursive", 'r', false),
      ("count", 'c', false), ("no-filename", 'h', false), ("ignore-case", 'i', false),
      ("files-with-matches", 'l', false), ("line-number", 'n', false), ("only-matching", 'o', false),
      ("quiet", 'q', false), ("silent", 'q', false), ("no-messages", 's', false),
      ("invert-match", 'v', false), ("word-regexp", 'w', false), ("line-regexp", 'x', false),
      ("after-context", 'A', true), ("before-context", 'B', true), ("context", 'C', true),
      ("regexp", 'e', true), ("file", 'f', true), ("max-count", 'm', true), ("text", 'a', false)] }

/-- The number with which the program ends if something is wrong. -/
def trouble : Nat := 2

/-- How the program is used. -/
def usage : Act Nat := do
  let name ← ownName
  putError ("Usage: " ++ name ++ " [OPTION]... PATTERNS [FILE]...\n")
  hint
  return trouble

/-- What is looked for. -/
structure Search where
  /-- The expression. -/
  expression : Regular
  /-- Whether capitals and small letters count the same. -/
  folds : Bool := false
  /-- Whether the lines are selected in which it is not found. -/
  negated : Bool := false

/-- A line as a subject. -/
def Search.subject (s : Search) (longest : Bool) (l : List Char) : Regular.Subject :=
  { text := l.toArray, folds := s.folds, longest }

/-- Whether a line is selected. -/
def Search.selects (s : Search) (l : List Char) : Bool :=
  ((s.subject false l).search s.expression 0).isSome != s.negated

/-- The parts of a line that fit, from a place on; empty ones are left out. The first number bounds their
number. -/
def Search.parts (s : Search) (subject : Regular.Subject) : Nat → Nat → List (List Char)
  | 0, _ => []
  | n + 1, i =>
    match subject.search s.expression i with
    | none => []
    | some (start, f) =>
      if f.stop = start then
        if start < subject.text.size then Search.parts s subject n (start + 1) else []
      else (subject.text.extract start f.stop).toList :: Search.parts s subject n f.stop

/-- The expression that options and a text ask for. -/
def expressionOf (a : Arguments) (pattern : List Char) : Except Regular.Flaw Regular := do
  let r ← match a.last? ['E', 'F', 'G', 'P'] with
    | some 'F' => pure (Regular.ofText pattern)
    | some 'G' | none => Regular.read {} pattern
    | _ => Regular.read { extended := true, looseEnds := true } pattern
  let around (e f : Edge) : Regular := .both (.edge e) (.both r (.edge f))
  return if a.has 'x' then around .start .stop
    else if a.has 'w' then around .clearBefore .clearBehind
    else r

/-- One of some expressions. -/
def anyOf : List Regular → Regular
  | [] => .both (.edge .start) (.both .any (.edge .start))
  | [r] => r
  | r :: rest => .either r (anyOf rest)

/-- A number that is an option's value. -/
def number? (a : Arguments) (letter : Char) : Option Nat := (a.value? letter).bind String.toNat?

/-- How what is found is shown. -/
structure Style where
  /-- Whether the names of files stand in front. -/
  names : Bool
  /-- Whether the numbers of lines do. -/
  numbers : Bool
  /-- How many lines are shown in front of a selected one. -/
  before : Nat
  /-- How many lines are shown behind a selected one. -/
  after : Nat
  /-- How many lines are selected at most. -/
  most : Option Nat

/-- The name that is shown of a file. -/
def title (name : String) : String := if name = "-" then "(standard input)" else name

/-- What stands in front of a line. -/
def start (s : Style) (name : String) (n : Nat) (mark : String) : String :=
  (if s.names then title name ++ mark else "") ++ (if s.numbers then toString n ++ mark else "")

/-- The lines of a file with their numbers, each with whether it is selected; no more are selected than
may be. -/
def marked (s : Search) (most : Option Nat) : Nat → List (List Char) → List (Nat × List Char × Bool)
  | _, [] => []
  | n, l :: rest =>
    if most = some 0 then []
    else
      let selected := s.selects l
      (n, l, selected) :: marked s (if selected then most.map (· - 1) else most) (n + 1) rest

/-- Whether a line is shown: whether a line near it is selected. -/
def isShown (s : Style) (chosen : List Nat) (n : Nat) : Bool :=
  chosen.any fun m => m ≤ n + s.before && n ≤ m + s.after

/-- Shows the selected lines of a file and those around them. -/
def showLines (s : Style) (name : String) (ls : List (Nat × List Char × Bool)) : Act Unit := do
  let chosen := ls.filterMap fun l => if l.2.2 then some l.1 else none
  let around := s.before + s.after > 0
  let mut last := 0
  for (n, l, selected) in ls do
    if selected || (around && isShown s chosen n) then
      if around && last > 0 && n > last + 1 then emit "--\n"
      emit (start s name n (if selected then ":" else "-") ++ String.ofList l ++ "\n")
      last := n

/-- Looks through a file; says whether a line was selected. -/
def file (a : Arguments) (s : Search) (style : Style) (name t : String) : Act Bool := do
  let ls := marked s style.most 1 (lineTexts t)
  let count := ls.countP fun l => l.2.2
  let found := count > 0
  if a.has 'q' then return found
  else if a.has 'l' || a.has 'L' then
    if found = a.has 'l' then emit (title name ++ "\n")
  else if a.has 'c' then
    emit ((if style.names then title name ++ ":" else "") ++ toString count ++ "\n")
  else if t.toList.contains '\x00' && !a.has 'a' then
    if found then emit ((← ownName) ++ ": " ++ title name ++ ": binary file matches\n")
  else if a.has 'o' then
    for (n, l, selected) in ls do
      if selected && !s.negated then
        for part in s.parts (s.subject true l) (l.length + 1) 0 do
          emit (start style name n ":" ++ String.ofList part ++ "\n")
  else showLines style name ls
  return if a.has 'L' && !a.has 'l' then !found else found

mutual

/-- The paths of the files below a path. -/
def below : Files → String → List String
  | .file _, path => [path]
  | .dir entries, path => belowEntries path entries

/-- The paths of the files in the entries of a directory. -/
def belowEntries (path : String) : List (String × Files) → List String
  | [] => []
  | (name, t) :: rest =>
    let name := Octets.ofText name
    below t (if path = "" then name else path ++ "/" ++ name) ++ belowEntries path rest

end

/-- The files that are looked through. -/
def names (a : Arguments) (operands : List String) : Act (List String) := do
  if !(a.has 'r' || a.has 'R') then return inputs operands
  let mut all : List String := []
  for path in (if operands.isEmpty then [""] else operands) do
    match ← find (if path = "" then "." else path) with
    | .ok t => all := all ++ below t path
    | .error _ => all := all ++ [path]
  return all

/-- The expressions that options and arguments ask for, and the arguments that are left. -/
def patterns (a : Arguments) : Act (Except Trouble (Option (List (List Char) × List String))) := do
  let given := a.options.filterMap fun o => if o.1 = 'e' then o.2 else none
  let files := a.options.filterMap fun o => if o.1 = 'f' then o.2 else none
  let mut all := given.flatMap fun p => Text.splitAt '\n' p.toList
  for path in files do
    match ← contents path with
    | .ok t => all := all ++ lineTexts t
    | .error t =>
      complainOf path t
      return .error t
  if given.isEmpty && files.isEmpty then
    match a.operands with
    | [] => return .ok none
    | p :: operands => return .ok (some (Text.splitAt '\n' p.toList, operands))
  return .ok (some (all, a.operands))

/-- Writes the lines of files in which an expression is found. -/
def body (a : Arguments) : Act Nat := do
  match ← patterns a with
  | .error _ => return trouble
  | .ok none => usage
  | .ok (some (ps, operands)) =>
    match ps.mapM (expressionOf a) with
    | .error e =>
      complain e.message
      return trouble
    | .ok rs =>
      let s : Search :=
        { expression := anyOf rs, folds := a.has 'i' || a.has 'y', negated := a.has 'v' }
      let files ← names a operands
      let recursive := a.has 'r' || a.has 'R'
      let style : Style :=
        { names := match a.last? ['H', 'h'] with
            | some 'H' => true
            | some _ => false
            | none => operands.length > 1 || recursive
          numbers := a.has 'n'
          before := ((number? a 'B').orElse fun _ => number? a 'C').getD 0
          after := ((number? a 'A').orElse fun _ => number? a 'C').getD 0
          most := number? a 'm' }
      let mut found := false
      let mut wrong := false
      for name in files do
        match ← contents name with
        | .ok t =>
          if ← file a s style name t then found := true
          if found && a.has 'q' then return 0
        | .error t =>
          if !a.has 's' then complain (title name ++ ": " ++ t.reason)
          wrong := true
      return if wrong then trouble else if found then 0 else 1

/-- Writes the lines of files in which an expression is found. -/
def program : Body := fun arguments => do
  match options.read arguments with
  | .ok a => body a
  | .error message =>
    complain message
    usage

end Stepflow.Shell.Program.Select
