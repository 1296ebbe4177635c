import Stepflow.Files.Tree
import Stepflow.Text.Basic

/-!
# Paths of files

How paths are written, where they lead in a tree of files, and from which directory a process follows them.
-/

/-!
## Paths as texts

A path is a text; a solidus separates the names in it, and one at its start makes it absolute.
Paths are joined and shown as texts. To follow one, it is taken apart into names, where an empty name
and a point stand for nothing and two points lead back.
-/

namespace Stepflow.FilePath

open Text

/-- Whether a path starts at the root. -/
def isAbsolute (path : String) : Bool := path.toList.head? = some '/'

/-- A path below another one; an absolute path stays what it is. -/
def join (base path : String) : String :=
  if isAbsolute path || base = "" then path
  else if base.toList.getLast? = some '/' then base ++ path
  else base ++ "/" ++ path

/-- Follows one name: where it leads from a place. -/
def enter (place : List String) (name : List Char) : List String :=
  if name = [] || name = ['.'] then place
  else if name = ['.', '.'] then place.dropLast
  else place ++ [String.ofList name]

/-- The names that lead to a path, from the root and through the working directory if the path is
relative. -/
def names (workingDirectory : List String) (path : String) : List String :=
  (splitAt '/' path.toList).foldl enter (if isAbsolute path then [] else workingDirectory)

/-- The path of a place, from the root. -/
def absolute (place : List String) : String := "/" ++ "/".intercalate place

/-- The last name in a path. -/
def fileName (path : String) : List Char :=
  (((splitAt '/' path.toList).filter fun n => n ≠ [] && n ≠ ['.']).getLast?).getD []

/-- What follows the last point of a name, if something precedes it. -/
def extensionOf? (name : List Char) : Option (List Char) :=
  let tail := name.reverse.takeWhile (· ≠ '.')
  let stem := (name.reverse.drop (tail.length + 1)).reverse
  if tail.length = name.length || stem = [] || name = ['.', '.'] then none else some tail.reverse

/-- Whether the last name in a path has an extension. -/
def hasExtension (path ext : String) : Bool := extensionOf? (fileName path) = some ext.toList

end Stepflow.FilePath

/-!
## Following paths

A path is followed name by name. A point and two points are names that every directory has: they lead
nowhere from what is no directory. A solidus at the end asks for a directory. So a path may fail to lead
anywhere although the place that its names spell is there.
-/

namespace Stepflow

namespace FilePath

/-- Whether a path ends with a solidus. -/
def asksDirectory (path : String) : Bool := path.toList.getLast? = some '/'

end FilePath

namespace Files

/-- The number of bytes that a path may not reach. -/
def pathLimit : Nat := 4096

/-- Follows one name from a place. -/
def enter (t : Files) (place : List String) (name : List Char) : Except Obstacle (List String) :=
  if name = ['.'] || name = ['.', '.'] then (t.readDir place).map fun _ => FilePath.enter place name
  else .ok (FilePath.enter place name)

/-- The place that a path leads to, which need not be there; all before its last name is. -/
def follow (t : Files) (workingDirectory : List String) (path : String) :
    Except Obstacle (List String) :=
  if path = "" then .error .missing
  else if path.toList.contains '\x00' then .error .zeroByte
  else if path.utf8ByteSize ≥ pathLimit then .error .longName
  else
    let start := if FilePath.isAbsolute path then [] else workingDirectory
    (Text.splitAt '/' path.toList).foldlM t.enter start

/-- The place that a path leads to, for one who looks at what stands there. -/
def followTo (t : Files) (workingDirectory : List String) (path : String) :
    Except Obstacle (List String) :=
  match t.follow workingDirectory path with
  | .error o => .error o
  | .ok place =>
    if FilePath.asksDirectory path && t.isFile place then .error .notDirectory else .ok place

/-- The place that a path leads to, for one who makes a file there. -/
def followNew (t : Files) (workingDirectory : List String) (path : String) :
    Except Obstacle (List String) :=
  match t.follow workingDirectory path with
  | .error o => .error o
  | .ok place =>
    if !FilePath.asksDirectory path then .ok place
    else match t.readDir place.dropLast with
      | .error o => .error o
      | .ok _ => .error .isDirectory

/-- What stands at a path. -/
def findAt (t : Files) (workingDirectory : List String) (path : String) : Except Obstacle Files :=
  (t.followTo workingDirectory path).bind t.find

/-- The text of the file at a path. -/
def readTextAt (t : Files) (workingDirectory : List String) (path : String) :
    Except Obstacle String :=
  (t.followTo workingDirectory path).bind t.readText

/-- The entries of the directory at a path. -/
def readDirAt (t : Files) (workingDirectory : List String) (path : String) :
    Except Obstacle (List (String × Files)) :=
  (t.followTo workingDirectory path).bind t.readDir

/-- Whether a file stands at a path. -/
def isFileAt (t : Files) (workingDirectory : List String) (path : String) : Bool :=
  match t.followTo workingDirectory path with
  | .ok place => t.isFile place
  | .error _ => false

/-- Puts something at a path, or takes away what stands there. -/
def putAt (t : Files) (workingDirectory : List String) (path : String) (new : Option Files) :
    Except Obstacle Files :=
  (t.follow workingDirectory path).bind (t.update fun _ => .ok new)

/-- Writes the file at a path. -/
def writeFileAt (t : Files) (workingDirectory : List String) (path : String) (content : Content) :
    Except Obstacle Files :=
  (t.followNew workingDirectory path).bind fun place => t.writeFile place content

/-- Makes the directory at a path, and those that the path leads through. -/
def makeDirsAt (t : Files) (workingDirectory : List String) (path : String) : Except Obstacle Files :=
  if path.toList.contains '\x00' then .error .zeroByte
  else
    let start := if FilePath.isAbsolute path then [] else workingDirectory
    let step (s : Files × List String) (name : List Char) : Except Obstacle (Files × List String) :=
      let place := FilePath.enter s.2 name
      (s.1.makeDirs place).map fun t => (t, place)
    ((Text.splitAt '/' path.toList).foldlM step (t, start)).map (·.1)

end Files

end Stepflow

/-!
## The environment of a process

What a process finds when it starts: its working directory and the values of variables. The working
directory is known by the path that is shown and by the names that lead to it.
-/

namespace Stepflow

/-- The environment of a process. -/
structure Environment where
  /-- The path of the working directory, as it is shown. -/
  directory : String
  /-- The names that lead to the working directory from the root. -/
  place : List String
  /-- The value of a variable, if it is set. -/
  valueOf : String → Option String := fun _ => none

namespace Environment

/-- The names that lead to a path. -/
def names (e : Environment) (path : String) : List String := FilePath.names e.place path

/-- The value of a variable that is set to something. -/
def filled? (e : Environment) (name : String) : Option String :=
  (e.valueOf name).filter fun v => v ≠ ""

/-- The directory of the user's configuration: as the variable for it says, if that is an absolute
path, and else below the user's own directory. -/
def configurationDirectory? (e : Environment) : Option String :=
  match (e.filled? "XDG_CONFIG_HOME").filter FilePath.isAbsolute with
  | some path => some path
  | none => (e.filled? "HOME").map fun home => FilePath.join home ".config"

end Environment

end Stepflow
