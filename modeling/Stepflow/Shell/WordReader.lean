import Stepflow.Shell.Reader

/-!
# Reading words

Quotes, replacements and calculations may stand inside each other in a word. The reader of a word keeps a
stack of what it stands in, the innermost part in front, and writes a list of strokes; at the end the
strokes are folded into pieces.

The body of a document is read by the same rules as the inside of double quotes.
-/

namespace Stepflow.Shell

/-- By which rules characters are read. -/
inductive Manner where
  /-- Outside quotes. -/
  | bare
  /-- Between double quotes. -/
  | double
  /-- Between single quotes. -/
  | single
  /-- In a calculation. -/
  | calculation
  deriving DecidableEq, Inhabited

/-- What a word is read in. -/
structure Layer where
  /-- The rules. -/
  manner : Manner
  /-- Whether it stands in double quotes. -/
  inQuotes : Bool := false
  /-- The number of parameters in braces that are open. -/
  braces : Nat := 0
  /-- The number of those among them that were opened in double quotes. -/
  quotedBraces : Nat := 0
  /-- Whether double quotes are open inside the braces. -/
  innerQuotes : Bool := false
  /-- Whether it ends with its last brace. -/
  endsWithBrace : Bool := false
  /-- The number of parentheses that are open. -/
  parentheses : Nat := 0

/-- What the reader of a word writes. -/
inductive Stroke where
  /-- A piece. -/
  | piece (p : Piece)
  /-- The start of a parameter in braces. -/
  | openParameter (name : String) (use : Use)
  /-- The end of a parameter in braces. -/
  | closeParameter
  /-- The start of a calculation. -/
  | openCalculation
  /-- The end of a calculation. -/
  | closeCalculation

namespace Stroke

/-- A part of a word that is open: what it will be, and the pieces in it, the last first. -/
abbrev Open := (List Piece → Piece) × List Piece

/-- Adds a piece to the innermost part; the last member stands for the word itself. -/
def add (p : Piece) : List Open → List Open
  | [] => [(fun _ => p, [p])]
  | (make, ps) :: outer => (make, p :: ps) :: outer

/-- Ends the innermost part. -/
def close : List Open → List Open
  | (make, ps) :: outer@(_ :: _) => add (make ps.reverse) outer
  | parts => parts

/-- Takes a stroke. -/
def step (parts : List Open) : Stroke → List Open
  | .piece p => add p parts
  | .openParameter name use => (Piece.parameter name use, []) :: parts
  | .openCalculation => (Piece.calculation, []) :: parts
  | .closeParameter | .closeCalculation => close parts

/-- The word that strokes stand for. -/
def fold (strokes : List Stroke) : Word :=
  match (strokes.foldl step [(fun _ => .mark, [])]).getLast? with
  | some (_, ps) => ps.reverse
  | none => []

end Stroke

/-- A word that is being read. -/
structure Draft where
  /-- What it is read in, the innermost in front. -/
  layer : Layer
  /-- What that stands in. -/
  outer : List Layer := []
  /-- The strokes, the last first. -/
  strokes : List Stroke := []
  /-- Whether any of it is quoted. -/
  quoted : Bool := false

/-- What ends a document. -/
structure Ending where
  /-- The line that ends it. -/
  mark : List Char
  /-- Whether blanks at the start of lines are left out. -/
  indented : Bool

namespace Draft

/-- Adds a stroke. -/
def push (d : Draft) (s : Stroke) : Draft := { d with strokes := s :: d.strokes }

/-- Adds a character that stands for itself. -/
def quote (d : Draft) (c : Char) : Draft := d.push (.piece (.quoted c))

/-- Adds a character as the innermost part has it. -/
def char (d : Draft) (c : Char) : Draft :=
  match d.layer.manner with
  | .bare | .calculation => d.push (.piece (.plain c))
  | .double | .single => d.quote c

/-- Goes into another part. -/
def enter (d : Draft) (l : Layer) : Draft := { d with layer := l, outer := d.layer :: d.outer }

/-- Goes out of the innermost part. -/
def leave (d : Draft) : Draft :=
  match d.outer with
  | [] => d
  | l :: outer => { d with layer := l, outer }

/-- Changes the innermost part. -/
def within (d : Draft) (f : Layer → Layer) : Draft := { d with layer := f d.layer }

/-- Writes a quotation mark, except in documents. -/
def mark (d : Draft) (ending : Option Ending) : Draft :=
  if ending.isSome then d else d.push (.piece .mark)

/-- Opens single quotes. -/
def openSingle (d : Draft) (ending : Option Ending) : Draft :=
  (d.within fun l => { l with manner := .single }).mark ending

/-- Notes that double quotes were opened or closed inside braces. -/
def toggle (d : Draft) : Draft :=
  d.within fun l => if l.braces > 0 then { l with innerQuotes := !l.innerQuotes } else l

/-- Opens double quotes. -/
def openDouble (d : Draft) (ending : Option Ending) : Draft :=
  ((d.within fun l => { l with manner := .double, inQuotes := true }).toggle).mark ending

/-- Takes a quotation mark that closes quotes. -/
def closeQuotes (d : Draft) (ending : Option Ending) (c : Char) : Draft :=
  if ending.isSome && d.layer.braces = 0 then d.quote c
  else
    let d := d.within fun l =>
      if l.quotedBraces = 0 then { l with manner := .bare, inQuotes := false } else l
    let d := { d with quoted := true }
    (if c = '"' then d.toggle else d).mark ending

/-- Takes a brace that may close a parameter. -/
def closeBrace (d : Draft) : Draft :=
  let l := d.layer
  if l.innerQuotes || l.braces = 0 then d.char '\x7d'
  else
    let d := d.within fun l => { l with braces := l.braces - 1 }
    let d :=
      if l.braces = 1 && l.endsWithBrace then d.leave
      else d.within fun l => { l with quotedBraces := l.quotedBraces - 1 }
    d.push .closeParameter

/-- Opens a parameter in braces. -/
def openParameter (d : Draft) (name : String) (use : Use) : Draft :=
  let inside := match use with
    | .trim .. => .bare
    | _ => if d.layer.manner = .calculation then .double else d.layer.manner
  let d :=
    if inside ≠ d.layer.manner || d.layer.innerQuotes then
      d.enter { manner := inside, inQuotes := inside ≠ .bare, endsWithBrace := true }
    else d
  let d := d.within fun l =>
    { l with
      braces := l.braces + 1
      quotedBraces := if l.inQuotes then l.quotedBraces + 1 else l.quotedBraces }
  d.push (.openParameter name use)

/-- Opens a calculation. -/
def openCalculation (d : Draft) : Draft :=
  (d.enter { manner := .calculation, inQuotes := true }).push .openCalculation

/-- Whether a character behind a reverse solidus loses its meaning; if not, both stand for themselves. -/
def escapes (d : Draft) (ending : Option Ending) (c : Char) : Bool :=
  !d.layer.inQuotes || c = '\\' || c = '\x60' || c = '$' ||
    (c = '"' && !(ending.isSome && d.layer.braces = 0)) || (c = '\x7d' && d.layer.braces > 0)

end Draft

namespace Reading

/-! ### Parameters -/

/-- The marks that are names of parameters. -/
def specialNames : List Char := ['*', '@', '#', '?', '$', '!', '-']

/-- Whether a character alone is the name of a parameter. -/
def isSpecial (c : Char) : Bool := specialNames.contains c || c.isDigit

/-- Takes characters as long as they are of a kind, from `c` on; gives the first that is not. -/
def takeWhile (p : Char → Bool) : Nat → Option Char → List Char → Reading (List Char × Option Char)
  | 0, c, taken => return (taken.reverse, c)
  | n + 1, c, taken =>
    match c with
    | some d => do
      if p d then takeWhile p n (← nextJoined) (d :: taken) else return (taken.reverse, c)
    | none => return (taken.reverse, none)

/-- Takes the name of a parameter that begins with `c`, if one does. -/
def parameterName (c : Option Char) (inBraces : Bool) : Reading (Option (String × Option Char)) := do
  let fuel := (← get).rest.length + 1
  match c with
  | some d =>
    if Name.isStart d then
      let (name, c) ← takeWhile Name.isPart fuel c []
      return some (String.ofList name, c)
    else if d.isDigit then
      if inBraces then
        let (name, c) ← takeWhile Char.isDigit fuel c []
        return some (String.ofList name, c)
      else return some (String.singleton d, ← nextJoined)
    else return none
  | none => return none

/-- The use that a mark behind the name of a parameter stands for. -/
def useOf (c : Option Char) ( empty : Bool) : Use :=
  match c with
  | some '-' => .default empty
  | some '+' => .alternative empty
  | some '?' => .demand empty
  | some '=' => .assign empty
  | some '\x7d' => .value
  | _ => .unknown

/-- Takes the use of a parameter from `c` on, and says whether a brace is still to come. -/
def parameterUse (c : Option Char) : Reading (Use × Bool) := do
  match c with
  | some ':' => return (useOf (← nextJoined) true, true)
  | some '%' => return (.trim false (← takes '%'), true)
  | some '#' => return (.trim true (← takes '#'), true)
  | some '\x7d' => return (.value, false)
  | _ => return (useOf c false, true)

/-- Takes what follows the name of a parameter whose length is meant. -/
def lengthUse (c : Option Char) : Reading Use := do
  back c
  return if c = some '\x7d' then .length else .unknown

/-- Takes a parameter in braces, behind the first brace. -/
def braced (d : Draft) : Reading Draft := do
  let c ← nextJoined
  if let some (name, c) ← parameterName c true then
    let (use, isOpen) ← parameterUse c
    return if isOpen then d.openParameter name use else d.push (.piece (.parameter name use []))
  match c with
  | none => return d.openParameter "" .unknown
  | some '\x7d' =>
    back c
    return d.openParameter "" .unknown
  | some '#' =>
    let c ← nextJoined
    if let some (name, c) ← parameterName c true then
      return d.openParameter name (← lengthUse c)
    let e ← nextJoined
    if c = some '\x7d' || e ≠ some '\x7d' then
      back e
      let (use, isOpen) ← parameterUse c
      return if isOpen then d.openParameter "#" use else d.push (.piece (.parameter "#" use []))
    else
      back e
      match c with
      | some m =>
        return if isSpecial m then d.openParameter (String.singleton m) .length
          else d.openParameter "" .unknown
      | none => return d.openParameter "" .unknown
  | some m =>
    let c ← nextJoined
    if isSpecial m then
      let (use, isOpen) ← parameterUse c
      return if isOpen then d.openParameter (String.singleton m) use
        else d.push (.piece (.parameter (String.singleton m) use []))
    else
      back c
      return d.openParameter "" .unknown

/-! ### Commands in words -/

/-- Whether characters behind a reverse solidus lose their meaning in old quotes for commands. -/
def escapesInOldQuotes (d : Draft) (c : Char) : Bool :=
  c = '\\' || c = '\x60' || c = '$' || (d.layer.inQuotes && c = '"')

/-- Takes the text between old quotes for commands, behind the first one. -/
def oldQuotes (d : Draft) : Nat → List Char → Reading (List Char)
  | 0, _ => fail "EOF in backquote substitution"
  | n + 1, taken => do
    match ← nextJoined with
    | none => fail "EOF in backquote substitution"
    | some '\x60' => return taken.reverse
    | some '\\' =>
      match ← next with
      | none => fail "EOF in backquote substitution"
      | some c => oldQuotes d n (if escapesInOldQuotes d c then c :: taken else c :: '\\' :: taken)
    | some '\n' =>
      countLine
      oldQuotes d n ('\n' :: taken)
    | some c => oldQuotes d n (c :: taken)

/-- Reads the commands in a text of their own, and goes on behind them. -/
def apart (commands : Reading Command) (text : List Char) : Reading Command := do
  let r ← get
  set { r with rest := text, line := 1 }
  let c ← commands
  modify fun inner => { inner with rest := r.rest, line := r.line, again := false }
  return c

/-- The commands between parentheses, behind the first one; those that wait for documents around them go
on waiting. -/
def alone (commands : Reading Command) : Reading Command := do
  let awaited := (← get).awaited
  modify fun r => { r with awaited := [] }
  let c ← commands
  modify fun r => { r with awaited }
  return c

/-- Takes what follows a dollar sign. `inMark` says that it stands in the mark of a document, where
nothing is replaced, `old` reads commands in a text, `new` up to a parenthesis. -/
def dollar (new : Reading Command) (inMark : Bool) (d : Draft) : Reading Draft := do
  let c ← nextJoined
  match c with
  | some m =>
    if inMark then
      back c
      return d.char '$'
    else if m = '(' then
      if ← takes '(' then return d.openCalculation
      return d.push (.piece (.output (← alone new)))
    else if m = '\x7b' then braced d
    else if let some (name, c) ← parameterName c false then
      back c
      return d.push (.piece (.parameter name .value []))
    else if isSpecial m then return d.push (.piece (.parameter (String.singleton m) .value []))
    else
      back c
      return d.char '$'
  | none => return d.char '$'

/-! ### Words -/

/-- How commands in words are read: those in a text of their own, and those up to a parenthesis. -/
structure CommandReaders where
  /-- Commands in a text of their own. -/
  old : Reading Command
  /-- Commands up to a parenthesis. -/
  new : Reading Command

/-- Whether a character ends a word outside quotes. -/
def endsWord (c : Char) : Bool := ['<', '>', '(', ')', ';', '&', '|', ' ', '\t'].contains c

/-- At the start of a line of a document: whether the document ends there. If not, gives the first
character of the line. -/
def atLineStart (ending : Option Ending) (c : Option Char) : Reading (Option Char) := do
  match ending, c with
  | none, _ => return c
  | some _, none => return none
  | some e, some c =>
    let r ← get
    let line := c :: r.rest
    let line := if e.indented then line.dropWhile (· = '\t') else line
    let behind := line.drop e.mark.length
    if e.mark.isPrefixOf line && (behind = [] || behind.head? = some '\n') then
      set { r with rest := behind.tail, line := r.line + 1 }
      return none
    else
      match line with
      | [] =>
        set { r with rest := [] }
        return none
      | c :: rest =>
        set { r with rest }
        return some c

/-- Takes a character of a word; gives nothing if the word ends before it. -/
def stroke (readers : CommandReaders) (ending : Option Ending) (inMark : Bool) (d : Draft) (c : Char) :
    Reading (Option Draft) := do
  let l := d.layer
  match l.manner, c with
  | .single, '\'' => return some (d.closeQuotes ending c)
  | .single, _ => return some (d.quote c)
  | _, '\\' =>
    match ← next with
    | none => return some (d.quote '\\')
    | some c =>
      let e := if d.escapes ending c then d else d.quote '\\'
      return some { e.quote c with quoted := true }
  | _, '$' => return some (← dollar readers.new inMark d)
  | _, '\x7d' => return some d.closeBrace
  | _, '\x60' =>
    if inMark then return some (d.char c)
    let text ← oldQuotes d ((← get).rest.length + 1) []
    return some (d.push (.piece (.output (← alone (apart readers.old text)))))
  | .bare, '\'' => return some (d.openSingle ending)
  | .bare, '"' => return some (d.openDouble ending)
  | .double, '"' => return some (d.closeQuotes ending c)
  | .calculation, '(' =>
    return some ((d.within fun l => { l with parentheses := l.parentheses + 1 }).char c)
  | .calculation, ')' =>
    if l.parentheses > 0 then
      return some ((d.within fun l => { l with parentheses := l.parentheses - 1 }).char c)
    else if ← takes ')' then return some (d.leave.push .closeCalculation)
    else return some (d.char c)
  | .bare, _ => return if endsWord c && l.braces = 0 then none else some (d.char c)
  | _, _ => return some (d.char c)

/-- Takes characters up to the end of a word, from `c` on; gives the first that is not in it. -/
def strokes (readers : CommandReaders) (ending : Option Ending) (inMark : Bool) :
    Nat → Option Char → Draft → Reading (Draft × Option Char)
  | 0, c, d => return (d, c)
  | _ + 1, none, d => return (d, none)
  | n + 1, some '\n', d => do
    if d.layer.manner = .bare && d.layer.braces = 0 then return (d, some '\n')
    countLine
    let c ← if d.layer.manner = .single then next else nextJoined
    strokes readers ending inMark n (← atLineStart ending c) (d.char '\n')
  | n + 1, some c, d => do
    match ← stroke readers ending inMark d c with
    | none => return (d, some c)
    | some d =>
      let c ← if d.layer.manner = .single then next else nextJoined
      strokes readers ending inMark n c d

/-- Complains if something in a word is still open at its end. -/
def checkClosed (ending : Option Ending) (d : Draft) : Reading Unit := do
  if d.layer.manner = .calculation then fail "Missing '))'"
  if d.layer.manner ≠ .bare && ending.isNone then fail "Unterminated quoted string"
  if d.layer.braces ≠ 0 then fail "Missing '\x7d'"

/-- Makes a word the last one. -/
def giveWord (d : Draft) : Reading Token := do
  modify fun r => { r with word := Stroke.fold d.strokes.reverse, quoted := d.quoted }
  give .word

/-- The stream that a redirection is for, if the word before it may be the number of one. -/
def streamOf? (d : Draft) : Option (Option Nat) :=
  if d.quoted then none
  else match d.strokes with
    | [] => some none
    | [.piece (.plain c)] => if c.isDigit then some (some (c.toNat - '0'.toNat)) else none
    | _ => none

/-- Takes the rest of the mark of a redirection that begins as those for writing do. -/
def writingOpening : Reading Opening := do
  if ← takes '>' then return .file .append
  if ← takes '|' then return .file .overwrite
  if ← takes '&' then return .copy
  return .file .write

/-- Takes the rest of the mark of a redirection that begins as those for reading do. -/
def readingOpening : Reading Opening := do
  if ← takes '<' then return .document (← takes '-')
  if ← takes '&' then return .copy
  if ← takes '>' then return .file .update
  return .file .read

/-- Takes the mark of a redirection, behind its first character. -/
def redirection (c : Char) (stream : Option Nat) : Reading Token := do
  let writes := c = '>'
  let opening ← if writes then writingOpening else readingOpening
  modify fun r => { r with opening := (stream.getD (if writes then 1 else 0), opening) }
  give .redirection

/-- Takes a word that begins with `c`, or the mark of a redirection. -/
def word (readers : CommandReaders) (c : Char) : Reading Token := do
  let inMark := (← get).lookout.mark
  let fuel := (← get).rest.length + 2
  let (d, c) ← strokes readers none inMark fuel (some c) { layer := { manner := .bare } }
  checkClosed none d
  match c, streamOf? d with
  | some '<', some stream => redirection '<' stream
  | some '>', some stream => redirection '>' stream
  | _, _ =>
    back c
    giveWord d

/-- Reads the body of a document. -/
def document (readers : CommandReaders) (a : Awaited) : Reading Unit := do
  let manner := if a.literal then Manner.single else .double
  let ending := some { mark := a.mark, indented := a.indented : Ending }
  let c ← atLineStart ending (← if a.literal then next else nextJoined)
  let fuel := (← get).rest.length + 2
  let (d, _) ← strokes readers ending false fuel c
    { layer := { manner, inQuotes := manner = .double } }
  checkClosed ending d
  modify fun r =>
    { r with documents := r.documents.setIfInBounds a.number (Stroke.fold d.strokes.reverse) }

/-- Reads the documents that are waited for. -/
def awaitedDocuments (readers : CommandReaders) : Reading Unit := do
  let awaited := (← get).awaited
  modify fun r => { r with awaited := [] }
  awaited.forM (document readers)

end Reading

end Stepflow.Shell
