import Stepflow.Shell.Calculation

/-!
# Commands on the working directory and on new files

The options of all commands of the shell itself come first.
-/

/-!
## Options of the shell's own commands

Options are letters behind a minus sign, in front of all other arguments; some of them take a value. Two
minus signs end them.
-/

namespace Stepflow.Shell.Own

/-- An option, and its value if it takes one. -/
abbrev Given := Char × Option String

/-- The letters that may be given, and whether each takes a value. -/
abbrev Letters := List (Char × Bool)

/-- Letters without values. -/
def plain (cs : List Char) : Letters := cs.map fun c => (c, false)

/-- Takes the options in one argument, behind its minus sign. -/
def letters (known : Letters) : List Char → List String → Act (List Given × List String)
  | [], rest => return ([], rest)
  | c :: cs, rest => do
    match known.lookup c with
    | none => Act.raise ("Illegal option -" ++ String.singleton c)
    | some false =>
      let (options, rest) ← letters known cs rest
      return ((c, none) :: options, rest)
    | some true =>
      match cs, rest with
      | _ :: _, _ => return ([(c, some (String.ofList cs))], rest)
      | [], value :: rest => return ([(c, some value)], rest)
      | [], [] => Act.raise ("No arg for -" ++ String.singleton c ++ " option")

/-- Takes the options in front of arguments; gives them and what is left. `n` bounds their number. -/
def options (known : Letters) : Nat → List String → Act (List Given × List String)
  | 0, arguments => return ([], arguments)
  | n + 1, arguments =>
    match arguments with
    | [] => return ([], [])
    | a :: rest =>
      if a = "--" then return ([], rest)
      else match a.toList with
        | '-' :: c :: cs => do
          let (first, rest) ← letters known (c :: cs) rest
          let (others, rest) ← options known n rest
          return (first ++ others, rest)
        | _ => return ([], arguments)

/-- Takes the options in front of arguments. -/
def takeOptions (known : Letters) (arguments : List String) : Act (List Given × List String) :=
  options known arguments.length arguments

/-- Takes no options: complains about any. -/
def noOptions (arguments : List String) : Act (List String) := do
  return (← takeOptions [] arguments).2

/-- The greatest number that an argument may be. -/
def greatestNumber : Nat := 2147483647

/-- The number that an argument is. -/
def number (a : String) : Act Nat := do
  let cs := a.toList
  let (n, rest) := Calculation.digits 10 cs
  if cs.isEmpty || !rest.isEmpty || n > greatestNumber then Act.raise ("Illegal number: " ++ a)
  return n

end Stepflow.Shell.Own

/-!
## The working directory and new files
-/

namespace Stepflow.Shell.Own

/-- Shows the working directory. -/
def pwdCommand (arguments : List String) : Act Nat := do
  let (options, _) ← takeOptions (plain ['L', 'P']) arguments
  let s ← Act.session
  let physical := options.getLast?.any fun o => o.1 = 'P'
  Act.say ((if physical then Octets.ofText (FilePath.absolute s.place) else s.directory) ++ "\n")
  return 0

/-- The path of the directory that is reached from a directory by a path. -/
def directoryBehind (directory path : String) : String :=
  "/" ++ "/".intercalate (FilePath.names (FilePath.names [] directory) path)

/-- Makes a directory the working directory; says whether that was possible. Unless every name of the
path is to be followed, two points undo the name before them. -/
def enter (every : Bool) (path : String) : Act Bool := do
  let s ← Act.session
  let directory := directoryBehind s.directory path
  match ← Act.find (if every then path else directory) with
  | .ok (.dir _) =>
    let place ← Act.placeOf directory
    Act.change fun s => { s with place, directory }
    Act.assignExported "OLDPWD" s.directory
    Act.assignExported "PWD" directory
    return true
  | _ => return false

/-- Whether a path begins where it says, so that it is not looked for elsewhere. -/
def isAnchored (path : String) : Bool :=
  match path.toList with
  | '/' :: _ | ['.'] | ['.', '.'] | '.' :: '/' :: _ | '.' :: '.' :: '/' :: _ => true
  | _ => false

/-- Makes the first directory of some in which a path leads to one the working directory. -/
def enterBelow (every : Bool) (path : String) : List String → Act (Option String)
  | [] => return none
  | d :: rest => do
    let target := if d = "" then path else FilePath.join d path
    if ← enter every target then return some d
    enterBelow every path rest

/-- Goes to a directory: the user's own without an argument, and the one before for a minus sign. -/
def cdCommand (arguments : List String) : Act Nat := do
  let (options, arguments) ← takeOptions (plain ['L', 'P']) arguments
  let every := options.getLast?.map (·.1) = some 'P'
  let back := arguments.head? = some "-"
  let target : String ← match arguments with
    | [] => Act.value "HOME"
    | "-" :: _ => Act.value "OLDPWD"
    | a :: _ => pure a
  let path := if target = "" then "." else target
  let show_ : Act Nat := do
    Act.say ((← Act.session).directory ++ "\n")
    return 0
  let places ← if isAnchored path then pure none else Act.value? "CDPATH"
  if let some places := places then
    if let some d ← enterBelow every path ((Text.splitAt ':' places.toList).map String.ofList) then
      return ← if d ≠ "" || back then show_ else pure 0
  if ← enter every path then return ← if back then show_ else pure 0
  Act.raise ("can't cd to " ++ target)

/-! ### Rights of new files -/

/-- A number in octal digits, of which there are at least some. -/
def octalText (digits n : Nat) : String :=
  let cs := Nat.toDigits 8 n
  String.ofList (List.replicate (digits - cs.length) '0' ++ cs)

/-- The rights of all three kinds of users. -/
def allRights : Nat := 511

/-- The letters for the rights that three bits stand for. -/
def rightsText (bits : Nat) : String :=
  String.ofList ((if bits / 4 % 2 = 1 then ['r'] else []) ++ (if bits / 2 % 2 = 1 then ['w'] else []) ++
    (if bits % 2 = 1 then ['x'] else []))

/-- The text for the rights that new files may get. -/
def maskText (mask : Nat) : String :=
  let rights := allRights - mask % (allRights + 1)
  "u=" ++ rightsText (rights / 64 % 8) ++ ",g=" ++ rightsText (rights / 8 % 8) ++ ",o=" ++
    rightsText (rights % 8)

/-- The bits of a right in three bits. -/
def rightBits? (c : Char) : Option Nat :=
  match c with
  | 'r' => some 4
  | 'w' => some 2
  | 'x' => some 1
  | _ => none

/-- How far the bits of a kind of users are shifted. -/
def usersFactors? (c : Char) : Option (List Nat) :=
  match c with
  | 'u' => some [64]
  | 'g' => some [8]
  | 'o' => some [1]
  | 'a' => some [64, 8, 1]
  | _ => none

/-- Changes rights by one clause: users, a sign, and rights, or users whose rights are taken over. -/
def changeRights? (rights : Nat) (clause : List Char) : Option Nat := do
  let users := clause.takeWhile fun c => (usersFactors? c).isSome
  let factors := if users.isEmpty then [64, 8, 1] else users.flatMap fun c => (usersFactors? c).getD []
  match clause.drop users.length with
  | sign :: what =>
    let bits ← match what with
      | ['u'] => some (rights / 64 % 8)
      | ['g'] => some (rights / 8 % 8)
      | ['o'] => some (rights % 8)
      | _ => (what.mapM rightBits?).map fun bs => bs.foldl (· ||| ·) 0
    if sign = '=' || sign = '+' || sign = '-' then
      some (factors.foldl (fun r f =>
        let old := r / f % 8
        let new := if sign = '=' then bits else if sign = '+' then old ||| bits else old &&& (7 - bits)
        r - old * f + new * f) rights)
    else none
  | [] => none

/-- Shows or sets the rights that new files do not get. -/
def umaskCommand (arguments : List String) : Act Nat := do
  let (options, arguments) ← takeOptions (plain ['S']) arguments
  let mask := (← Act.session).mask
  match arguments with
  | [] =>
    Act.say ((if options.isEmpty then octalText 4 mask else maskText mask) ++ "\n")
    return 0
  | a :: _ =>
    let cs := a.toList
    let new ←
      if (cs.head?.map Char.isDigit).getD false then
        if cs.all fun c => '0' ≤ c && c ≤ '7' then pure ((Calculation.digits 8 cs).1 % (allRights + 1))
        else Act.raise ("Illegal number: " ++ a)
      else
        let clauses := Text.splitAt ',' cs
        match clauses.foldl (fun r clause => r.bind fun r => changeRights? r clause)
            (some (allRights - mask)) with
        | some rights => pure (allRights - rights)
        | none => Act.raise ("Illegal mode: " ++ a)
    Act.change fun s => { s with mask := new }
    return 0

end Stepflow.Shell.Own
