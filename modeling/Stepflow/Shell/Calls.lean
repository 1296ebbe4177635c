import Stepflow.Shell.Expansion
import Stepflow.Shell.Search

/-!
# Before a command is run

How redirections are followed, and how words become the name and the arguments of a command.
-/

/-!
## Following redirections

The words of all redirections of a command are replaced before the first stream is opened. They are then
followed in their order, up to the first that is not possible.
-/

namespace Stepflow.Shell

/-- A redirection whose words were replaced. -/
inductive Connection where
  /-- To a file. -/
  | file (stream : Nat) (access : Access) (path : String)
  /-- To where another stream leads, or nowhere. -/
  | copy (stream : Nat) (other : Option Nat)
  /-- From a text. -/
  | content (stream : Nat) (s : String)

namespace Connection

open Act

/-- Complains about a file that cannot be opened. -/
def cannotOpen (access : Access) (path : String) (t : Trouble) : Act Unit :=
  let reading := access = .read
  let reason :=
    if t.isMissing then if reading then "No such file" else "Directory nonexistent" else t.reason
  complain ((if reading then "cannot open " else "cannot create ") ++ path ++ ": " ++ reason)

/-- Replaces the words of a redirection. -/
def ofRedirection (run : Expansion.Runner) : Redirection → Act Connection
  | .file stream access path => do return .file stream access (← Expansion.text run path)
  | .copy stream other => do
    let w ← Expansion.text run other
    match w.toList with
    | ['-'] => return .copy stream none
    | [c] =>
      if c.isDigit then return .copy stream (some (c.toNat - '0'.toNat))
      raise "Syntax error: Bad fd number"
    | _ => raise "Syntax error: Bad fd number"
  | .document stream number => do
    let w := (← session).documents[number]?.getD []
    return .content stream (← Expansion.document run w)

/-- Makes a connection; says whether that was possible. -/
def make : Connection → Act Bool
  | .file stream access path => do
    match ← openFile access path (← isOn 'C') with
    | .ok i =>
      connect stream (some i)
      return true
    | .error t =>
      cannotOpen access path t
      return false
  | .copy stream none => do
    connect stream none
    return true
  | .copy stream (some other) => do
    match ← streamIndex? other with
    | some i =>
      connect stream (some i)
      return true
    | none =>
      complain (toString other ++ ": " ++ Trouble.noStream.reason)
      return false
  | .content stream s => do
    connect stream (some (← openText s))
    return true

/-- Makes connections in order, up to the first that is not possible; says whether all were. -/
def makeAll : List Connection → Act Bool
  | [] => return true
  | c :: rest => do if ← c.make then makeAll rest else return false

/-- Follows redirections; says whether that was possible. -/
def follow (run : Expansion.Runner) (rs : List Redirection) : Act Bool := do
  makeAll (← rs.mapM (ofRedirection run))

end Connection

/-!
## The words of a command

The words of a command are replaced from left to right. The first field is its name, which is looked up
before the words behind it are replaced: some commands of the shell keep arguments together that are
assignments.
-/

/-- A command whose name was looked up. -/
structure Call where
  /-- What its name stands for. -/
  found : Found
  /-- Its name and its arguments, as far as they were replaced. -/
  fields : List String
  /-- The words that are still to be replaced. -/
  rest : List Word
  /-- The fields that stood before its name. -/
  passed : List String := []
  /-- Whether an error in it ends the shell. -/
  special : Bool := false

namespace Call

/-- Whether it is a command of the shell. -/
def isOwn (c : Call) : Bool :=
  match c.found with
  | .own _ => true
  | _ => false

/-- The name of the command. -/
def name (c : Call) : String := c.fields.headD ""

/-- Replaces words up to the first that gives any field. -/
def firstFields (run : Expansion.Runner) : List Word → Act (List String × List Word)
  | [] => return ([], [])
  | w :: rest => do
    let fields ← Expansion.fields run w
    if fields.isEmpty then firstFields run rest else return (fields, rest)

/-- Replaces words; those that are assignments keep together if the command takes such. -/
def otherFields (run : Expansion.Runner) (assigns : Bool) (ws : List Word) : Act (List String) := do
  let fields ← ws.mapM fun w => do
    if assigns && Word.isAssignment w then return [← Expansion.assignment run w]
    else Expansion.fields run w
  return fields.flatten

/-- Takes the options of the command that looks past functions: what is left of the fields, and whether
the usual directories are to be looked through. Other options are for the command itself. -/
def pastFunctions? : List String → Bool → Option (List String × Bool)
  | [], _ => none
  | f :: rest, usual =>
    match f.toList with
    | ['-', '-'] => if rest.isEmpty then none else some (rest, usual)
    | '-' :: c :: cs => if (c :: cs).all (· = 'p') then pastFunctions? rest true else none
    | _ => some (f :: rest, usual)

/-- Replaces words until there is a name behind the options. -/
def withName (run : Expansion.Runner) : Nat → List String → List Word → Act (List String × List Word)
  | 0, fields, rest => return (fields, rest)
  | n + 1, fields, rest => do
    let named := fields.tail.any fun f => f.toList.head? ≠ some '-'
    if named || rest.isEmpty then return (fields, rest)
    let (more, rest) ← firstFields run rest
    withName run n (fields ++ more) rest

/-- Looks up the name of a command, where some fields are known, and those `passed` stood before it.
`special` says whether an error in it ends the shell, if so. The number bounds the names that stand before
others. -/
def resolve (run : Expansion.Runner) : Nat → (functions usual : Bool) → (special : Option Bool) →
    (passed fields : List String) → List Word → Act Call
  | 0, _, _, _, passed, fields, rest =>
    return { found := .nothing (.obstacle .missing), passed, fields, rest }
  | n + 1, functions, usual, special, passed, fields, rest => do
    let name := fields.headD ""
    match ← Search.command name functions usual with
    | .own s =>
      let plain : Call := { found := .own s, passed, fields, rest, special := special.getD s }
      if name ≠ "command" then return plain
      let (fields, rest) ← withName run rest.length fields rest
      match pastFunctions? fields.tail false with
      | none => return { plain with fields, rest }
      | some (behind, usual) =>
        let passed := passed ++ fields.take (fields.length - behind.length)
        resolve run n false usual (some plain.special) passed behind rest
    | found => return { found, passed, fields, rest }

/-- How many names may stand before others. -/
def nameLimit : Nat := 1000

/-- Looks up the name of a command whose first words were replaced. -/
def ofFields (run : Expansion.Runner) (fields : List String) (rest : List Word) : Act Call :=
  resolve run nameLimit true false none [] fields rest

/-- Replaces an assignment: the name, and the text that it gets. -/
def assignmentOf (run : Expansion.Runner) (w : Word) : Act (String × String) := do
  let (name, value) := Act.splitAssignment (← Expansion.assignment run w)
  return (name, value.getD "")

/-- Shows a command before it is run, if that was asked for. `errors` is the open stream that it is shown
on. -/
def trace (errors : Option Nat) (assignments : List (String × String)) (fields : List String) :
    Act Unit := do
  if ← Act.isOn 'x' then
    let words := assignments.map (fun (name, value) => name ++ "=" ++ value) ++ fields
    let shown := (← Act.value "PS4") ++ " ".intercalate words ++ "\n"
    Act.withStreams do
      Act.connect 2 errors
      Act.putError shown

/-- The number for a name that stands for nothing that can be run. -/
def missingStatus (name : String) (t : Trouble) : Nat :=
  if Search.isPath name && !t.isMissing then 126 else 127

end Call

end Stepflow.Shell
