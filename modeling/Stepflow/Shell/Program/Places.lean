import Stepflow.Shell.Program.Showing

/-!
# Programs that change the tree of files

They make, remove, copy and move files and directories. What stands in the way is told for each name, and
the others are not held up by it.
-/

namespace Stepflow.Shell.Program

open Act

/-- A path without the slashes at its end. -/
def bare (path : String) : String :=
  match (path.toList.reverse.dropWhile (· = '/')).reverse with
  | [] => if path = "" then "" else "/"
  | cs => String.ofList cs

/-- The last name of a path. -/
def lastName (path : String) : String :=
  String.ofList ((bare path).toList.reverse.takeWhile (· ≠ '/')).reverse

/-- The path of an entry of a directory. -/
def entryPath (directory name : String) : String :=
  if directory.toList.getLast? = some '/' then directory ++ name else directory ++ "/" ++ name

/-- What stands at a path, if anything does. -/
def found? (path : String) : Act (Option Files) := do return (← find path).toOption

/-- Whether a directory stands at a path. -/
def isDirectory (path : String) : Act Bool := do
  return match ← found? path with
    | some (.dir _) => true
    | _ => false

/-- Changes what stands at a path. -/
def changePlace (path : String) (new : Option Files) : Act (Except Trouble Unit) := do
  match (← world).files.putAt (← session).place (Octets.toText path) new with
  | .ok files =>
    setFiles files
    return .ok ()
  | .error o => return .error (.obstacle o)

/-! ### Directories -/

namespace Directory

/-- Makes a directory; says whether there was none. -/
def make (path : String) : Act (Except Trouble Bool) := do
  if path = "" then return .error (.obstacle .missing)
  match ← find path with
  | .ok (.dir _) => return .ok false
  | .ok (.file _) | .error (.obstacle .notDirectory) =>
    let isFile := match ← find (bare path) with
      | .ok _ => true
      | .error _ => false
    return .error (.obstacle (if isFile then .exists else .notDirectory))
  | .error (.obstacle .missing) => return (← changePlace path (some .empty)).map fun () => true
  | .error t => return .error t

/-- The paths of a path and of all above it, the uppermost first. -/
def paths (path : String) : List String :=
  let cs := (bare path).toList
  let cuts := (List.range cs.length).filter fun k => k > 0 && cs[k]? = some '/' && cs[k - 1]? ≠ some '/'
  (cuts.map fun k => String.ofList (cs.take k)) ++ [path]

/-- Tells that a directory was made. -/
def told (a : Arguments) (path : String) : Act Unit := do
  if a.has 'v' then emit ((← ownName) ++ ": created directory " ++ quoted path ++ "\n")

/-- Makes directories, up to the first that cannot be made. -/
def makeAll (a : Arguments) (whole : String) : List String → Act Nat
  | [] => return 0
  | path :: rest => do
    match ← make path with
    | .ok made =>
      if made then told a path
      makeAll a whole rest
    | .error t =>
      let t := if rest.isEmpty || t ≠ .obstacle .exists then t else .obstacle .notDirectory
      failing ("cannot create directory " ++ quoted path ++ ": " ++ t.reason)

/-- Makes directories. -/
def makeProgram : Body :=
  Options.program
    { plain := ['p', 'v', 'Z'], valued := ['m']
      words := [("parents", 'p', false), ("verbose", 'v', false), ("mode", 'm', true)] } 1
    fun a => do
      if a.operands.isEmpty then return ← missingOperand 1
      forEach a.operands fun path => do
        if a.has 'p' then makeAll a path (paths path)
        else match ← make path with
          | .ok true =>
            told a path
            return 0
          | .ok false => failing ("cannot create directory " ++ quoted path ++ ": File exists")
          | .error t => failing ("cannot create directory " ++ quoted path ++ ": " ++ t.reason)

/-- Removes a directory in which nothing is. -/
def remove (a : Arguments) (path : String) : Act Nat := do
  if a.has 'v' then emit ((← ownName) ++ ": removing directory, " ++ quoted path ++ "\n")
  let refuse (reason : String) : Act Nat := failing ("failed to remove " ++ quoted path ++ ": " ++ reason)
  match ← find path with
  | .error t => refuse t.reason
  | .ok (.file _) => refuse (Trouble.reason (.obstacle .notDirectory))
  | .ok (.dir (_ :: _)) => if a.has 'I' then return 0 else refuse "Directory not empty"
  | .ok (.dir []) =>
    if lastName path = "." then return ← refuse "Invalid argument"
    let _ ← changePlace path none
    return 0

/-- Removes directories, up to the first that cannot be removed. -/
def removeAll (a : Arguments) : List String → Act Nat
  | [] => return 0
  | path :: rest => do
    let status ← remove a path
    if status = 0 then removeAll a rest else return status

/-- Removes directories in which nothing is. -/
def removeProgram : Body :=
  Options.program
    { plain := ['p', 'v']
      words := [("parents", 'p', false), ("verbose", 'v', false),
        ("ignore-fail-on-non-empty", 'I', false)] } 1
    fun a => do
      if a.operands.isEmpty then return ← missingOperand 1
      forEach a.operands fun path =>
        if a.has 'p' then removeAll a (paths path).reverse else remove a path

end Directory

/-! ### Removing -/

namespace Remove

mutual

/-- What is told when a tree is removed. -/
def told (path : String) : Files → List String
  | .file _ => ["removed " ++ quoted path]
  | .dir entries => toldEntries path entries ++ ["removed directory " ++ quoted path]

/-- What is told when the entries of a directory are removed. -/
def toldEntries (path : String) : List (String × Files) → List String
  | [] => []
  | (name, t) :: rest => told (entryPath path (Octets.ofText name)) t ++ toldEntries path rest

end

/-- The options. -/
def options : Options :=
  { plain := ['d', 'f', 'i', 'I', 'r', 'R', 'v']
    words := [("dir", 'd', false), ("force", 'f', false), ("recursive", 'r', false),
      ("verbose", 'v', false)] }

/-- Removes what stands at a path. -/
def one (a : Arguments) (path : String) : Act Nat := do
  let recursive := a.has 'r' || a.has 'R'
  let cannot (reason : String) : Act Nat := failing ("cannot remove " ++ quoted path ++ ": " ++ reason)
  let name := lastName path
  match ← find path with
  | .error t => if a.has 'f' && t.isMissing then return 0 else cannot t.reason
  | .ok t =>
    if recursive && (name = "." || name = "..") then
      return ← failing ("refusing to remove '.' or '..' directory: skipping " ++ quoted path)
    let refusal := match t with
      | .file _ => none
      | .dir entries =>
        if recursive then none
        else if !a.has 'd' then some (Trouble.reason (.obstacle .isDirectory))
        else if entries.isEmpty then none
        else some "Directory not empty"
    match refusal with
    | some reason => cannot reason
    | none =>
      if recursive && (← placeOf path).isEmpty then
        complain "it is dangerous to operate recursively on '/'"
        return ← failing "use --no-preserve-root to override this failsafe"
      let _ ← changePlace path none
      if a.has 'v' then emit (String.join ((told path t).map (· ++ "\n")))
      return 0

/-- Removes files and trees. -/
def program : Body := options.program 1 fun a => do
  if a.operands.isEmpty then
    if a.has 'f' then return 0
    return ← missingOperand 1
  forEach a.operands (one a)

end Remove

/-! ### Making files -/

/-- Makes files that are not there. -/
def touch : Body :=
  Options.program
    { plain := ['a', 'c', 'f', 'h', 'm'], valued := ['d', 'r', 't']
      words := [("no-create", 'c', false), ("date", 'd', true), ("reference", 'r', true)] } 1
    fun a => do
      if a.operands.isEmpty then return ← misused 1 "missing file operand"
      forEach a.operands fun path => do
        match ← find path with
        | .ok _ => return 0
        | .error (.obstacle .missing) =>
          if a.has 'c' then return 0
          let made ← if path = "" then pure (.error (.obstacle .missing)) else openFile .append path false
          match made with
          | .ok _ => return 0
          | .error (.obstacle .isDirectory) =>
            failing ("setting times of " ++ quoted path ++ ": " ++ Trouble.reason (.obstacle .missing))
          | .error t => failing ("cannot touch " ++ quoted path ++ ": " ++ t.reason)
        | .error t => failing ("cannot touch " ++ quoted path ++ ": " ++ t.reason)

/-! ### Copying and moving -/

namespace Transfer

/-- Puts a tree over another one. -/
def merged (new : Files) (old : Option Files) : Files :=
  match new, old with
  | .dir entries, some (.dir others) => .dir (go entries others)
  | new, _ => new
where
  /-- Puts entries over others. -/
  go : List (String × Files) → List (String × Files) → List (String × Files)
    | [], others => others
    | (name, t) :: rest, others => go rest (Files.putEntry others name t)

/-- What is told of a tree that is copied. -/
def told (source target : String) : String := quoted source ++ " -> " ++ quoted target

/-- Where a source goes: into the target, if that is a directory. -/
def goal (into : Bool) (source target : String) : String :=
  if into then entryPath target (lastName source) else target

/-- The operands: the sources and the target, or the target's trouble. -/
def sides (a : Arguments) : Act (Except Nat (List String × String × Bool)) := do
  match a.value? 't', a.operands with
  | some target, sources => return .ok (sources, target, true)
  | none, [] => return .error (← misused 1 "missing file operand")
  | none, [source] =>
    return .error (← misused 1 ("missing destination file operand after " ++ quoted source))
  | none, operands =>
    let target := operands.getLast?.getD ""
    let sources := operands.dropLast
    let into ← if a.has 'T' then pure false else isDirectory target
    if into || sources.length = 1 then return .ok (sources, target, into)
    let reason := if (← found? target).isSome then Trouble.reason (.obstacle .notDirectory)
      else Trouble.reason (.obstacle .missing)
    return .error (← failing ("target " ++ quoted target ++ ": " ++ reason))

/-- Whether a place lies in another one, or is it. -/
def isBelow (inner outer : List String) : Bool := outer.isPrefixOf inner

/-- Copies a source. -/
def copyOne (a : Arguments) (target : String) (into : Bool) (source : String) : Act Nat := do
  let goal := goal into source target
  let recursive := a.has 'r' || a.has 'R' || a.has 'a'
  match ← find source with
  | .error t => failing ("cannot stat " ++ quoted source ++ ": " ++ t.reason)
  | .ok (.dir entries) =>
    if !recursive then return ← failing ("-r not specified; omitting directory " ++ quoted source)
    let origin ← placeOf source
    let destination ← placeOf goal
    if isBelow destination origin then
      return ← failing ("cannot copy a directory, " ++ quoted source ++ ", into itself, " ++ quoted goal)
    let old ← found? goal
    if let some (.file _) := old then
      return ← failing
        ("cannot overwrite non-directory " ++ quoted goal ++ " with directory " ++ quoted source)
    match ← changePlace goal (some (merged (.dir entries) old)) with
    | .ok () =>
      if a.has 'v' then emit (told source goal ++ "\n")
      return 0
    | .error t => failing ("cannot create directory " ++ quoted goal ++ ": " ++ t.reason)
  | .ok (.file content) =>
    if (← placeOf source) = (← placeOf goal) then
      return ← failing (quoted source ++ " and " ++ quoted goal ++ " are the same file")
    if ← isDirectory goal then
      return ← failing ("cannot overwrite directory " ++ quoted goal ++ " with non-directory")
    if a.has 'n' && (← found? goal).isSome then return 0
    match ← writePath .write goal (contentText content) with
    | .ok () =>
      if a.has 'v' then emit (told source goal ++ "\n")
      return 0
    | .error t =>
      let t := if t = .obstacle .isDirectory then .obstacle .notDirectory else t
      failing ("cannot create regular file " ++ quoted goal ++ ": " ++ t.reason)

/-- The options of the program that copies. -/
def copyOptions : Options :=
  { plain := ['a', 'f', 'i', 'n', 'p', 'r', 'R', 'T', 'u', 'v', 'L', 'P', 'd', 'H', 'l', 's'], valued := ['t']
    words := [("archive", 'a', false), ("force", 'f', false), ("no-clobber", 'n', false),
      ("recursive", 'r', false), ("verbose", 'v', false), ("target-directory", 't', true),
      ("no-target-directory", 'T', false)] }

/-- Copies files and trees. -/
def copy : Body := copyOptions.program 1 fun a => do
  match ← sides a with
  | .error status => return status
  | .ok (sources, target, into) => forEach sources (copyOne a target into)

/-- Moves a source. -/
def moveOne (a : Arguments) (target : String) (into : Bool) (source : String) : Act Nat := do
  let goal := goal into source target
  match ← find source with
  | .error t => failing ("cannot stat " ++ quoted source ++ ": " ++ t.reason)
  | .ok t =>
    let origin ← placeOf source
    let destination ← placeOf goal
    let old ← found? goal
    let (isDir, name) := match t with
      | .dir _ => (true, "directory")
      | .file _ => (false, "non-directory")
    if origin = destination && !isDir then
      return ← failing (quoted source ++ " and " ++ quoted goal ++ " are the same file")
    if isDir && isBelow destination origin then
      return ← failing ("cannot move " ++ quoted source ++ " to a subdirectory of itself, " ++ quoted goal)
    if old.isSome && a.last? ['f', 'i', 'n'] = some 'n' then
      return ← failing ("not replacing " ++ quoted goal)
    match old with
    | some (.dir entries) =>
      if !isDir then
        return ← failing ("cannot overwrite directory " ++ quoted goal ++ " with " ++ name)
      if !entries.isEmpty then
        return ← failing
          ("cannot move " ++ quoted source ++ " to " ++ quoted goal ++ ": Directory not empty")
    | some (.file _) =>
      if isDir then
        return ← failing
          ("cannot overwrite non-directory " ++ quoted goal ++ " with " ++ name ++ " " ++ quoted source)
    | none => pure ()
    let moved ← if !isDir && FilePath.asksDirectory goal then pure (.error (.obstacle .notDirectory))
      else changePlace goal (some t)
    match moved with
    | .error e => failing ("cannot move " ++ quoted source ++ " to " ++ quoted goal ++ ": " ++ e.reason)
    | .ok () =>
      let _ ← changePlace source none
      if a.has 'v' then emit ("renamed " ++ told source goal ++ "\n")
      return 0

/-- The options of the program that moves. -/
def moveOptions : Options :=
  { plain := ['f', 'i', 'n', 'T', 'u', 'v'], valued := ['t']
    words := [("force", 'f', false), ("no-clobber", 'n', false), ("verbose", 'v', false),
      ("target-directory", 't', true), ("no-target-directory", 'T', false)] }

/-- Moves files and trees. -/
def move : Body := moveOptions.program 1 fun a => do
  match ← sides a with
  | .error status => return status
  | .ok (sources, target, into) => forEach sources (moveOne a target into)

end Transfer

/-! ### Permissions -/

namespace Mode

/-- Whether a text says how permissions are changed. -/
def isMode (s : String) : Bool :=
  let cs := s.toList
  let isOctal (c : Char) : Bool := '0' ≤ c && c ≤ '7'
  if (cs.head?.map Char.isDigit).getD false then cs.all isOctal && cs.length ≤ 5
  else (Text.splitAt ',' cs).all fun clause =>
    let who := clause.takeWhile fun c => ['u', 'g', 'o', 'a'].contains c
    match clause.drop who.length with
    | op :: rest =>
      ['+', '-', '='].contains op &&
        rest.all fun c => ['r', 'w', 'x', 'X', 's', 't', 'u', 'g', 'o', '+', '-', '='].contains c
    | [] => false

/-- Whether an argument takes permissions, though it looks like an option. -/
def isTaking (s : String) : Bool :=
  match s.toList with
  | '-' :: c :: _ => ['r', 'w', 'x', 'X', 's', 't'].contains c
  | _ => false

/-- Changes permissions, of which nothing is kept. -/
def program : Body := fun arguments =>
  let (taking, others) := arguments.partition isTaking
  Options.program
    { plain := ['c', 'f', 'R', 'v']
      words := [("recursive", 'R', false), ("silent", 'f', false), ("verbose", 'v', false)] } 1
    (fun a => do
      match taking ++ a.operands with
      | [] => missingOperand 1
      | [mode] => misused 1 ("missing operand after " ++ quoted mode)
      | mode :: paths =>
        if !isMode mode then misused 1 ("invalid mode: " ++ quoted mode)
        else forEach paths fun path => do
          match ← find path with
          | .ok _ => return 0
          | .error t => failing ("cannot access " ++ quoted path ++ ": " ++ t.reason)) others

end Mode

end Stepflow.Shell.Program
