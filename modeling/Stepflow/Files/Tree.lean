import Stepflow.Text.Basic

/-!
# Trees of files

A tree is a file or a directory; the entries of a directory stand in no particular order, and no two
have the same name. A file holds a text, or bytes that are none.

Places in a tree are lists of names. Looking at a place and changing what stands there fail with an
`Obstacle`, which says what stood in the way.
-/

namespace Stepflow

/-- What a file holds. -/
inductive Content where
  /-- A text. -/
  | text (s : String)
  /-- Bytes that are no text. -/
  | raw (bs : List UInt8)
  deriving DecidableEq, Inhabited

namespace Content

/-- Bytes as what a file holds. -/
def ofBytes (bs : List UInt8) : Content :=
  match String.fromUTF8? ⟨bs.toArray⟩ with
  | some s => .text s
  | none => .raw bs

/-- The text, if there is one. -/
def text? : Content → Option String
  | .text s => some s
  | .raw _ => none

/-- The bytes. -/
def bytes : Content → List UInt8
  | .text s => Text.bytes s
  | .raw bs => bs

end Content

/-- A file or a directory. -/
inductive Files where
  /-- A file. -/
  | file (content : Content)
  /-- A directory. -/
  | dir (entries : List (String × Files))
  deriving Inhabited

/-- What stands in the way of an operation on files. -/
inductive Obstacle where
  /-- There is nothing at the place. -/
  | missing
  /-- A file stands where a directory is needed. -/
  | notDirectory
  /-- A directory stands where a file is needed. -/
  | isDirectory
  /-- A file stands where a directory is to be made. -/
  | exists
  /-- A name has too many bytes. -/
  | longName
  /-- A path has a zero byte. -/
  | zeroByte
  /-- The bytes of a file are not text. -/
  | notText
  deriving DecidableEq, Repr

namespace Obstacle

/-- The wording of an obstacle, without its number. -/
def reason : Obstacle → String
  | .missing => "No such file or directory"
  | .notDirectory => "Not a directory"
  | .isDirectory => "Is a directory"
  | .exists => "File exists"
  | .longName => "File name too long"
  | .zeroByte => "file name contained an unexpected NUL byte"
  | .notText => "stream did not contain valid UTF-8"

/-- The number by which the system knows an obstacle, if it does. -/
def number? : Obstacle → Option Nat
  | .missing => some 2
  | .notDirectory => some 20
  | .isDirectory => some 21
  | .exists => some 17
  | .longName => some 36
  | .zeroByte | .notText => none

/-- The wording of an obstacle. -/
def message (o : Obstacle) : String :=
  match o.number? with
  | some n => o.reason ++ " (os error " ++ toString n ++ ")"
  | none => o.reason

end Obstacle

namespace Files

/-- A directory without entries. -/
def empty : Files := .dir []

/-- The number of bytes that a name may have. -/
def nameLimit : Nat := 255

/-- Whether a name is too long. -/
def isLongName (name : String) : Bool := name.utf8ByteSize > nameLimit

/-- Puts an entry into a directory, in the place of one of the same name if there is one. -/
def putEntry (entries : List (String × Files)) (name : String) (f : Files) :
    List (String × Files) :=
  if (entries.lookup name).isSome then entries.map fun e => if e.1 = name then (name, f) else e
  else entries ++ [(name, f)]

/-- Takes an entry out of a directory. -/
def dropEntry (entries : List (String × Files)) (name : String) : List (String × Files) :=
  entries.filter fun e => e.1 ≠ name

/-- What stands at a place. -/
def find (t : Files) : List String → Except Obstacle Files
  | [] => .ok t
  | name :: rest =>
    match t with
    | .file _ => .error .notDirectory
    | .dir entries =>
      if isLongName name then .error .longName
      else match entries.lookup name with
        | none => .error .missing
        | some below => below.find rest

/-- Changes what stands at a place: `change` is given what stands there, and says what is to stand
there, if anything. The directories above must exist. -/
def update (change : Option Files → Except Obstacle (Option Files)) :
    Files → List String → Except Obstacle Files
  | t, [] =>
    match change (some t) with
    | .error e => .error e
    | .ok none => .ok .empty
    | .ok (some f) => .ok f
  | .file _, _ :: _ => .error .notDirectory
  | .dir entries, [name] =>
    if isLongName name then .error .longName
    else match change (entries.lookup name) with
      | .error e => .error e
      | .ok none => .ok (.dir (dropEntry entries name))
      | .ok (some f) => .ok (.dir (putEntry entries name f))
  | .dir entries, name :: next :: rest =>
    if isLongName name then .error .longName
    else match entries.lookup name with
      | none => .error .missing
      | some below =>
        match update change below (next :: rest) with
        | .error e => .error e
        | .ok f => .ok (.dir (putEntry entries name f))

/-- The text of a file. -/
def readText (t : Files) (place : List String) : Except Obstacle String :=
  match t.find place with
  | .error e => .error e
  | .ok (.dir _) => .error .isDirectory
  | .ok (.file (.raw _)) => .error .notText
  | .ok (.file (.text s)) => .ok s

/-- The entries of a directory. -/
def readDir (t : Files) (place : List String) : Except Obstacle (List (String × Files)) :=
  match t.find place with
  | .error e => .error e
  | .ok (.file _) => .error .notDirectory
  | .ok (.dir entries) => .ok entries

/-- Whether a file stands at a place. -/
def isFile (t : Files) (place : List String) : Bool :=
  match t.find place with
  | .ok (.file _) => true
  | _ => false

/-- Whether a directory stands at a place. -/
def isDir (t : Files) (place : List String) : Bool :=
  match t.find place with
  | .ok (.dir _) => true
  | _ => false

/-- Writes a file, in the place of an older one if there is one. -/
def writeFile (t : Files) (place : List String) (content : Content) : Except Obstacle Files :=
  t.update (fun
    | some (.dir _) => .error .isDirectory
    | _ => .ok (some (.file content))) place

/-- Makes a directory and those above it, as far as they are missing. -/
def makeDirs : Files → List String → Except Obstacle Files
  | .file _, [] => .error .exists
  | .file _, _ :: _ => .error .notDirectory
  | .dir entries, [] => .ok (.dir entries)
  | .dir entries, name :: rest =>
    if isLongName name then .error .longName
    else
      match makeDirs ((entries.lookup name).getD .empty) rest with
      | .error e => .error e
      | .ok f => .ok (.dir (putEntry entries name f))

/-- Removes a directory with everything in it. -/
def removeDir (t : Files) (place : List String) : Except Obstacle Files :=
  t.update (fun
    | none => .error .missing
    | some (.file _) => .error .notDirectory
    | some (.dir _) => .ok none) place

end Files

end Stepflow
