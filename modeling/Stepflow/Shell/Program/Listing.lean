import Stepflow.Shell.Pattern
import Stepflow.Shell.Program.Places

/-!
# Listing directories

The entries of directories are shown in the order of their names, or all that is below them as it is
found.
-/

namespace Stepflow.Shell.Program

open Act

namespace Listed

/-- The options. -/
def options : Options :=
  { plain := ['a', 'A', '1', 'C', 'c', 'd', 'f', 'F', 'g', 'G', 'h', 'i', 'k', 'l', 'L', 'm', 'n', 'N', 'o',
      'p', 'q', 'Q', 'r', 'R', 's', 'S', 't', 'u', 'U', 'v', 'x', 'X', 'H', 'b', 'B', 'D', 'Z']
    valued := ['I', 'T', 'w']
    words := [("all", 'a', false), ("almost-all", 'A', false), ("directory", 'd', false),
      ("classify", 'F', false), ("reverse", 'r', false), ("recursive", 'R', false), ("size", 's', false)] }

/-- The number with which the program ends if an operand is missing. -/
def trouble : Nat := 2

/-- What is shown behind a name. -/
def mark (a : Arguments) : Files → String
  | .dir _ => if a.has 'F' || a.has 'p' then "/" else ""
  | .file _ => ""

/-- The number of bytes of what stands under a name. -/
def sizeOf : Files → Nat
  | .file c => c.bytes.length
  | .dir _ => 4096

/-- Whether one name comes before another one. -/
def isBefore (x y : String) : Bool := Octets.toBytes x ≤ Octets.toBytes y

/-- Sorts named things. -/
def sorted (a : Arguments) (entries : List (String × Files)) : List (String × Files) :=
  if a.has 'U' || a.has 'f' then entries
  else
    let byName := entries.mergeSort fun x y => isBefore x.1 y.1
    let ordered := if a.has 'S' then byName.mergeSort fun x y => sizeOf y.2 ≤ sizeOf x.2 else byName
    if a.has 'r' then ordered.reverse else ordered

/-- The entries of a directory that are shown. -/
def entriesOf (a : Arguments) (entries : List (String × Files)) : List (String × Files) :=
  let entries := entries.map fun e => (Octets.ofText e.1, e.2)
  let isHidden (name : String) : Bool := name.toList.head? = some '.'
  if a.has 'a' || a.has 'f' then [(".", Files.dir []), ("..", Files.dir [])] ++ entries
  else if a.has 'A' then entries
  else entries.filter fun e => !isHidden e.1

/-- The permissions, links and owner that are shown of all. -/
def details (t : Files) : String :=
  let start := match t with
    | .dir _ => "drwxr-xr-x 2"
    | .file _ => "-rw-r--r-- 1"
  start ++ " root root " ++ toString (sizeOf t) ++ " Jan  1 00:00 "

/-- Shows named things. -/
def showEntries (a : Arguments) (entries : List (String × Files)) : Act Unit := do
  let shown := entries.map fun e => e.1 ++ mark a e.2
  if entries.isEmpty then return
  else if a.has 'l' || a.has 'n' then
    emit (String.join (entries.map fun e => details e.2 ++ e.1 ++ mark a e.2 ++ "\n"))
  else if a.has 'm' then emit (", ".intercalate shown ++ "\n")
  else if a.last? ['1', 'x', 'C'] = some 'x' || a.last? ['1', 'x', 'C'] = some 'C' then
    emit ("  ".intercalate shown ++ "\n")
  else emit (String.join (shown.map (· ++ "\n")))

/-- How many blocks a file has. -/
def blocks : Files → Nat
  | .file c => (c.bytes.length + 4095) / 4096 * 4
  | .dir _ => 4

/-- Shows directories, with headings if there are several. The first number bounds how deep. -/
def directories (a : Arguments) : Nat → (headings isFirst : Bool) → List (String × Files) → Act Unit
  | 0, _, _, _ => return
  | _, _, _, [] => return
  | n + 1, headings, isFirst, (path, t) :: rest => do
    let entries := match t with
      | .dir entries => sorted a (entriesOf a entries)
      | .file _ => []
    if !isFirst then emit "\n"
    if headings then emit (path ++ ":\n")
    if a.has 'l' then emit ("total " ++ toString (entries.foldl (fun n e => n + blocks e.2) 0) ++ "\n")
    showEntries a entries
    let inner := if a.has 'R' then entries.filterMap fun e =>
        match e with
        | (".", _) | ("..", _) => none
        | (name, .dir es) => some (entryPath path name, Files.dir es)
        | _ => none
      else []
    directories a n headings false (inner ++ rest)

/-- How many directories are shown at most. -/
def limit : Nat := 100000

/-- Lists directories. -/
def program : Body := options.program trouble fun a => do
  let mut found : List (String × Files) := []
  let mut status := 0
  for path in (if a.operands.isEmpty then ["."] else a.operands) do
    match ← find path with
    | .ok t => found := found ++ [(path, t)]
    | .error t =>
      complain ("cannot access " ++ quoted path ++ ": " ++ t.reason)
      status := trouble
  let isDir : String × Files → Bool := fun
    | (_, .dir _) => !a.has 'd'
    | _ => false
  let (dirs, files) := (sorted a found).partition isDir
  showEntries a files
  let headings := a.operands.length > 1 || a.has 'R'
  directories a limit headings files.isEmpty dirs
  return status

end Listed

namespace Find

/-- A test of what is found. -/
inductive Test where
  /-- Whether the name fits a pattern, in which capitals and small letters may count the same. -/
  | name (pattern : List Char) (folds : Bool)
  /-- Whether it is a directory, or else a file. -/
  | kind (dir : Bool)
  /-- Whether nothing is in it. -/
  | isEmpty
  /-- The other answer of a test. -/
  | not (t : Test)

/-- What is to be found. -/
structure Query where
  /-- The tests. -/
  tests : List Test := []
  /-- How deep something stands at least. -/
  least : Nat := 0
  /-- How deep something stands at most. -/
  most : Option Nat := none
  /-- Whether it is removed. -/
  deletes : Bool := false

/-- Whether a test holds. -/
def Test.holds (name : String) (t : Files) : Test → Bool
  | .name pattern folds =>
    let fold (cs : List Char) : List Char := if folds then cs.map Char.toLower else cs
    fitsPattern (Glyph.ofText false (String.ofList (fold pattern))) (fold name.toList)
  | .kind dir => match t with
    | .dir _ => dir
    | .file _ => !dir
  | .isEmpty => match t with
    | .dir entries => entries.isEmpty
    | .file c => c.bytes.isEmpty
  | .not other => !other.holds name t

mutual

/-- What is found at a path and below it. -/
def found (q : Query) (depth : Nat) (path : String) : Files → List String
  | .file c => if isFound q depth path (.file c) then [path] else []
  | .dir entries =>
    (if isFound q depth path (.dir entries) then [path] else []) ++
      if q.most.any (· ≤ depth) then [] else foundIn q (depth + 1) path entries
where
  /-- Whether what stands at a path is to be found. -/
  isFound (q : Query) (depth : Nat) (path : String) (t : Files) : Bool :=
    q.least ≤ depth && q.tests.all fun x => x.holds (lastName path) t

/-- What is found in the entries of a directory. -/
def foundIn (q : Query) (depth : Nat) (path : String) : List (String × Files) → List String
  | [] => []
  | (name, t) :: rest =>
    found q depth (entryPath path (Octets.ofText name)) t ++ foundIn q depth path rest

end

/-- The words of expressions that take a value. -/
def valued : List String := ["-name", "-iname", "-type", "-maxdepth", "-mindepth"]

/-- What expressions ask for. -/
def query : Nat → Query → List String → Except String Query
  | 0, q, _ => .ok q
  | _, q, [] => .ok q
  | n + 1, q, w :: rest =>
    let add (t : Test) (rest : List String) : Except String Query :=
      query n { q with tests := q.tests ++ [t] } rest
    match w, rest with
    | "-print", rest => query n q rest
    | "-delete", rest => query n { q with deletes := true } rest
    | "-empty", rest => add .isEmpty rest
    | "-name", p :: rest => add (.name p.toList false) rest
    | "-iname", p :: rest => add (.name p.toList true) rest
    | "-type", "d" :: rest => add (.kind true) rest
    | "-type", "f" :: rest => add (.kind false) rest
    | "-type", k :: _ => .error ("Unknown argument to -type: " ++ k)
    | "-maxdepth", k :: rest => query n { q with most := k.toNat? } rest
    | "-mindepth", k :: rest => query n { q with least := k.toNat?.getD 0 } rest
    | "!", "-name" :: p :: rest | "-not", "-name" :: p :: rest => add (.not (.name p.toList false)) rest
    | "!", "-type" :: k :: rest | "-not", "-type" :: k :: rest => add (.not (.kind (k = "d"))) rest
    | w, rest =>
      .error (if rest.isEmpty && valued.contains w then "missing argument to \x60" ++ w ++ "'"
        else "unknown predicate \x60" ++ w ++ "'")

/-- Shows what stands below paths. -/
def program : Body := fun arguments => do
  let paths := arguments.takeWhile fun w => w.toList.head? ≠ some '-' && w ≠ "!"
  match query arguments.length {} (arguments.drop paths.length) with
  | .error message => failing message
  | .ok q =>
    forEach (if paths.isEmpty then ["."] else paths) fun path => do
      match ← find path with
      | .error t =>
        complain (quoted path ++ ": " ++ t.reason)
        return 1
      | .ok t =>
        let all := found q 0 path t
        if q.deletes then
          for p in all.reverse do
            let _ ← changePlace p none
        else emit (String.join (all.map (· ++ "\n")))
        return 0

end Find

end Stepflow.Shell.Program
