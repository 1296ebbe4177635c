import Stepflow.Shell.Vocabulary
import Stepflow.Shell.WordReader

/-!
# Reading commands

A text of commands is read a line at a time, as far as lines are complete commands: `Reading.line` gives
the next command, and nothing at the end. Later lines may depend on what earlier ones do, so each is run
before the next is read.

Every function takes a number that bounds how deep commands and tokens stand in each other and how many
follow each other; the length of the text is always enough.
-/

namespace Stepflow.Shell

/-- Where a list of commands stands. -/
inductive ListPlace where
  /-- On a line of its own, which ends it. -/
  | line
  /-- Inside a command; there must be a command. -/
  | inside
  /-- Inside a command, where there may be none. -/
  | optional
  deriving DecidableEq

namespace Reading

/-- The token for a mark between commands. -/
def op (text : String) : Token := .operator text

/-- The token for a reserved word. -/
def kw (text : String) : Token := .reserved text

/-- The name that a word is, if it is one. -/
def nameOf? (w : Word) : Option String := w.text?.filter fun s => Name.isName s.toList

/-- Takes the characters up to the end of the line. -/
def skipComment : Reading Unit :=
  modify fun r => { r with rest := r.rest.dropWhile (· ≠ '\n') }

/-- Joins two commands, of which the first may be missing. -/
def andThen (a : Option Command) (b : Command) : Command :=
  match a with
  | none => b
  | some a => .sequence a b

/-- A command that is not waited for. -/
def inBackground (c : Command) : Command := .background c

/-- Adds redirections to a command. -/
def withRedirections (line : Nat) (c : Command) (rs : List Redirection) : Command :=
  if rs.isEmpty then c
  else match c with
    | .subshell line inner _ => .subshell line inner rs
    | c => .redirected line c rs

/-- Waits for a document; gives its number. -/
def await (w : Word) (quoted indented : Bool) : Reading Nat := do
  let r ← get
  let number := r.documents.size
  let a : Awaited := { number, mark := w.bare, indented, literal := quoted }
  set { r with documents := r.documents.push [], awaited := r.awaited ++ [a] }
  return number

mutual

/-- Takes a token, whatever is looked for. -/
def rawToken : Nat → Reading Token
  | 0 => fail "out of depth"
  | n + 1 => do
    let r ← get
    if r.again then
      set { r with again := false }
      return r.token
    let c ← nextJoined
    match c with
    | none => give .ending
    | some ' ' | some '\t' => rawToken n
    | some '#' =>
      skipComment
      rawToken n
    | some '\n' =>
      countLine
      give .newline
    | some '&' => if ← takes '&' then give (op "&&") else give (op "&")
    | some '|' => if ← takes '|' then give (op "||") else give (op "|")
    | some ';' => if ← takes ';' then give (op ";;") else give (op ";")
    | some '(' => give (op "(")
    | some ')' => give (op ")")
    | some c => word (readers n) c

/-- How commands inside words are read. -/
def readers : Nat → CommandReaders
  | 0 => ⟨fail "out of depth", fail "out of depth"⟩
  | n + 1 =>
    { old := do
        let c ← list n .optional
        awaitedDocuments (readers n)
        return c.getD .nothing
      new := do
        let c ← list n .optional
        let t ← token n
        if t ≠ op ")" then unexpected (some (op ")"))
        let rest := (← get).rest
        modify fun r => { r with rest := [] }
        awaitedDocuments (readers n)
        modify fun r => { r with rest }
        return c.getD .nothing }

/-- Passes over ends of lines, of which `t` may be the first. -/
def passLines : Nat → Token → Reading Token
  | 0, t => return t
  | n + 1, t => do
    if t ≠ .newline then return t
    awaitedDocuments (readers n)
    lookFor {}
    passLines n (← rawToken n)

/-- Takes a token; words that are looked for are recognised. -/
def token : Nat → Reading Token
  | 0 => fail "out of depth"
  | n + 1 => do
    let r ← get
    let t ← rawToken n
    let wanted := { r.lookout with
      aliases := r.lookout.aliases || (!r.again && passedOn (← get) r.rest.length) }
    recognise n wanted t

/-- Recognises the token `t` as what is looked for. -/
def recognise : Nat → Lookout → Token → Reading Token
  | 0, _, t => return t
  | n + 1, wanted, t => do
    let t ← if wanted.lines then passLines n t else pure t
    lookFor {}
    let r ← get
    if t ≠ .word || r.quoted then return t
    match r.word.text? with
    | none => return t
    | some name =>
      if wanted.reserved && Token.reservedWords.contains name then give (kw name)
      else if wanted.aliases then
        match aliasOf? r name with
        | none => return t
        | some text =>
          replaceAlias name text
          recognise n wanted (← rawToken n)
      else return t

/-- Reads a list of commands. At the end of the text, a line without a command is nothing. -/
def list : Nat → ListPlace → Reading (Option Command)
  | 0, _ => fail "out of depth"
  | n + 1, place => listFrom n place none

/-- Reads the rest of a list of commands. -/
def listFrom : Nat → ListPlace → Option Command → Reading (Option Command)
  | 0, _, _ => fail "out of depth"
  | n + 1, place, before => do
    lookFor (if place = .line then .command else .commandBelow)
    let t ← token n
    match t with
    | .newline =>
      awaitedDocuments (readers n)
      return some (before.getD .nothing)
    | .ending =>
      awaitedDocuments (readers n)
      giveBack
      return if place = .line then before else some (before.getD .nothing)
    | t =>
      giveBack
      if t.endsList && (place = .optional || (place = .inside && before.isSome)) then
        return some (before.getD .nothing)
      let c ← andOr n
      let t ← token n
      let all := andThen before (if t = op "&" then inBackground c else c)
      match t with
      | .ending =>
        awaitedDocuments (readers n)
        giveBack
        return some all
      | .newline =>
        giveBack
        listFrom n place (some all)
      | t =>
        if t = op "&" || t = op ";" then listFrom n place (some all)
        else
          if place = .line then unexpected
          giveBack
          return some all

/-- Reads a list of commands that must not be missing. -/
def body : Nat → Reading Command
  | 0 => fail "out of depth"
  | n + 1 => do return (← list n .inside).getD .nothing

/-- Reads pipelines that depend on each other. -/
def andOr : Nat → Reading Command
  | 0 => fail "out of depth"
  | n + 1 => do andOrFrom n (← pipeline n)

/-- Reads the pipelines that depend on a command. -/
def andOrFrom : Nat → Command → Reading Command
  | 0, _ => fail "out of depth"
  | n + 1, before => do
    let t ← token n
    if t = op "&&" then
      lookFor .commandBelow
      andOrFrom n (.both before (← pipeline n))
    else if t = op "||" then
      lookFor .commandBelow
      andOrFrom n (.either before (← pipeline n))
    else
      giveBack
      return before

/-- Reads a pipeline. -/
def pipeline : Nat → Reading Command
  | 0 => fail "out of depth"
  | n + 1 => do
    let negated := (← token n) = kw "!"
    if negated then lookFor .command else giveBack
    let first ← command n
    let t ← token n
    let c ←
      if t = op "|" then do
        let others ← stages n
        pure (.pipeline (first :: others))
      else pure first
    giveBack
    return if negated then .negation c else c

/-- Reads the commands of a pipeline behind the first. -/
def stages : Nat → Reading (List Command)
  | 0 => fail "out of depth"
  | n + 1 => do
    lookFor .commandBelow
    let c ← command n
    let t ← token n
    if t = op "|" then return c :: (← stages n) else return [c]

/-- Reads a command. -/
def command : Nat → Reading Command
  | 0 => fail "out of depth"
  | n + 1 => do
    let line := (← get).line
    match ← token n with
    | .word | .redirection =>
      giveBack
      simple n line .aliased [] [] []
    | .reserved "if" => finish n line (kw "fi") (← choice n)
    | .reserved "while" => finish n line (kw "done") (← loop n true)
    | .reserved "until" => finish n line (kw "done") (← loop n false)
    | .reserved "for" => finish n line (kw "done") (← each n line)
    | .reserved "case" => trailing n line (← cases n line)
    | .reserved "\x7b" => finish n line (kw "\x7d") (← body n)
    | .operator "(" => finish n line (op ")") (.subshell line (← body n) [])
    | _ => unexpected

/-- Reads the token that ends a command, and redirections behind it. -/
def finish : Nat → Nat → Token → Command → Reading Command
  | 0, _, _, _ => fail "out of depth"
  | n + 1, line, last, c => do
    if (← token n) ≠ last then unexpected (some last)
    trailing n line c

/-- Reads the redirections behind a command. -/
def trailing : Nat → Nat → Command → Reading Command
  | 0, _, _ => fail "out of depth"
  | n + 1, line, c => do
    lookFor .command
    return withRedirections line c (← redirections n)

/-- Reads redirections. -/
def redirections : Nat → Reading (List Redirection)
  | 0 => fail "out of depth"
  | n + 1 => do
    if (← token n) = .redirection then
      let r ← target n
      return r :: (← redirections n)
    else
      giveBack
      return []

/-- Reads what a redirection leads to. -/
def target : Nat → Reading Redirection
  | 0 => fail "out of depth"
  | n + 1 => do
    let (stream, opening) := (← get).opening
    if let .document _ := opening then lookFor { mark := true }
    if (← token n) ≠ .word then unexpected
    let r ← get
    match opening with
    | .file access => return .file stream access r.word
    | .copy => return .copy stream r.word
    | .document indented => return .document stream (← await r.word r.quoted indented)

/-- Reads a command that depends on others, behind its first word. -/
def choice : Nat → Reading Command
  | 0 => fail "out of depth"
  | n + 1 => do
    let test ← body n
    if (← token n) ≠ kw "then" then unexpected (some (kw "then"))
    let yes ← body n
    let t ← token n
    if t = kw "elif" then return .choice test yes (← choice n)
    else if t = kw "else" then return .choice test yes (← body n)
    else
      giveBack
      return .choice test yes .nothing

/-- Reads a loop, behind its first word. -/
def loop : Nat → Bool → Reading Command
  | 0, _ => fail "out of depth"
  | n + 1, whileSuccess => do
    let test ← body n
    if (← token n) ≠ kw "do" then unexpected (some (kw "do"))
    return .loop whileSuccess test (← body n)

/-- Reads a command for each of some words, behind its first word. -/
def each : Nat → Nat → Reading Command
  | 0, _ => fail "out of depth"
  | n + 1, line => do
    let t ← token n
    let r ← get
    match (if t = .word && !r.quoted then nameOf? r.word else none) with
    | none => fail "Bad for loop variable"
    | some name =>
      lookFor .commandBelow
      let t ← token n
      let ws ←
        if t = kw "in" then do
          let ws ← words n
          let last := (← get).token
          if last ≠ .newline && last ≠ op ";" then unexpected
          pure ws
        else do
          if t ≠ op ";" then giveBack
          pure [Word.arguments]
      lookFor .commandBelow
      if (← token n) ≠ kw "do" then unexpected (some (kw "do"))
      return .each line name ws (← body n)

/-- Reads words. -/
def words : Nat → Reading (List Word)
  | 0 => fail "out of depth"
  | n + 1 => do
    if (← token n) = .word then
      let w := (← get).word
      return w :: (← words n)
    else return []

/-- Reads a choice among patterns, behind its first word. -/
def cases : Nat → Nat → Reading Command
  | 0, _ => fail "out of depth"
  | n + 1, line => do
    if (← token n) ≠ .word then unexpected (some .word)
    let w := (← get).word
    lookFor .commandBelow
    if (← token n) ≠ kw "in" then unexpected (some (kw "in"))
    return .cases line w (← arms n)

/-- Reads the arms of a choice among patterns. -/
def arms : Nat → Reading (List Arm)
  | 0 => fail "out of depth"
  | n + 1 => do
    lookFor .reservedBelow
    let t ← token n
    if t = kw "esac" then return []
    if t = op "(" then let _ ← token n
    let ps ← patterns n
    if (← get).token ≠ op ")" then unexpected (some (op ")"))
    let c := (← list n .optional).getD .nothing
    lookFor .reservedBelow
    let t ← token n
    if t = kw "esac" then return [.mk ps c]
    if t ≠ op ";;" then unexpected (some (op ";;"))
    return .mk ps c :: (← arms n)

/-- Reads patterns, of which the first is the last word. -/
def patterns : Nat → Reading (List Word)
  | 0 => fail "out of depth"
  | n + 1 => do
    let w := (← get).word
    if (← token n) = op "|" then
      let _ ← token n
      return w :: (← patterns n)
    else return [w]

/-- Reads the rest of a command with words: assignments, words and redirections, of which some have been
read already. -/
def simple : Nat → Nat → Lookout → List Word → List Word → List Redirection → Reading Command
  | 0, _, _, _, _, _ => fail "out of depth"
  | n + 1, line, l, assignments, ws, rs => do
    lookFor l
    let t ← token n
    match t with
    | .word =>
      let w := (← get).word
      if l.aliases && Word.isAssignment w then simple n line l (assignments ++ [w]) ws rs
      else simple n line {} assignments (ws ++ [w]) rs
    | .redirection => simple n line l assignments ws (rs ++ [← target n])
    | t =>
      match ws with
      | [name] =>
        if t = op "(" && assignments.isEmpty && rs.isEmpty then definition n name
        else
          giveBack
          return .simple line assignments ws rs
      | _ =>
        giveBack
        return .simple line assignments ws rs

/-- Reads the definition of a function, behind the first parenthesis. -/
def definition : Nat → Word → Reading Command
  | 0, _ => fail "out of depth"
  | n + 1, w => do
    if (← token n) ≠ op ")" then unexpected (some (op ")"))
    match (nameOf? w).filter fun name => !specialCommands.contains name with
    | none => fail "Bad function name"
    | some name =>
      lookFor .commandBelow
      let line := (← get).line
      return .define line name (← command n)

end

/-- How deep commands and tokens may stand in each other in a text with some number of characters. -/
def depthFor (characters : Nat) : Nat := characters * 40 + 1000

/-- **Reads the next line** of commands: all of them up to the end of a line that completes them, and
nothing at the end of the text. -/
def line : Reading (Option Command) := do
  modify fun r => { r with again := false, lookout := {}, awaited := [] }
  let r ← get
  let aliases := r.aliases.foldl (fun n (_, text) => n + text.length) 0
  list (depthFor (r.rest.length + aliases)) .line

end Reading

end Stepflow.Shell
