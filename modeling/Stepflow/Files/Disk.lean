import Stepflow.Files.Follow
import Stepflow.Script.Basic

/-!
# What is asked of a disk

A program that works with files asks the disk for one thing after the other, and names the files and
directories by paths. `DiskRequest` lists what may be asked for. What is asked for is decided by the
program and by the answers, which are the disk's own affair; a disk that holds a tree of files and is
left alone by others answers by what stands at the places to which the paths lead.
-/

/-!
## Names in a path

The names that a directory can list: a name with a solidus would be read as several, and the point and
the two points lead elsewhere.
-/

namespace Stepflow

/-- Whether a text is one ordinary name in a path. -/
def FilePath.isName (name : String) : Bool :=
  name ≠ "" && name ≠ "." && name ≠ ".." && !name.toList.contains '/' && !name.toList.contains '\x00'

/-- A name that a directory can list. -/
structure FilePath.Name where
  /-- The name. -/
  text : String
  /-- It is an ordinary one. -/
  isName : FilePath.isName text = true

/-! ## Requests -/

/-- What a program asks of a disk. -/
inductive DiskRequest where
  /-- To make a directory, and those above it that are missing. -/
  | makeDirs (path : String)
  /-- To write a text into a file, as far as the disk itself. -/
  | write (path text : String)
  /-- To put a file at another path, in the place of the file that is there. -/
  | rename (source target : String)
  /-- To remove a file. -/
  | removeFile (path : String)
  /-- To remove a directory with everything in it. -/
  | removeDir (path : String)
  /-- For the names in a directory. -/
  | list (path : String)
  /-- For what a file holds. -/
  | read (path : String)

/-- The names in a directory, as far as they could be listed. -/
structure Listing where
  /-- The names, in the order of the directory. -/
  names : List FilePath.Name
  /-- What broke the listing off, if anything did. -/
  brokenBy : Option Obstacle := none

/-- The names of entries. -/
def Listing.ofEntries (entries : List (String × Files)) : Listing where
  names := entries.filterMap fun e => if h : FilePath.isName e.1 = true then some ⟨e.1, h⟩ else none

/-- What a disk answers. -/
def DiskRequest.Answer : DiskRequest → Type
  | .makeDirs _ | .write .. | .rename .. | .removeFile _ | .removeDir _ => Except Obstacle Unit
  | .list _ => Except Obstacle Listing
  | .read _ => Except Obstacle Content

/-- A program that asks a disk. -/
abbrev DiskScript (α : Type) := Script DiskRequest DiskRequest.Answer α

namespace DiskScript

/-- Asks to make a directory. -/
def makeDirs (path : String) : DiskScript (Except Obstacle Unit) := Script.request (DiskRequest.makeDirs path)

/-- Asks to write a file. -/
def write (path text : String) : DiskScript (Except Obstacle Unit) := Script.request (DiskRequest.write path text)

/-- Asks to put a file at another path. -/
def rename (source target : String) : DiskScript (Except Obstacle Unit) :=
  Script.request (DiskRequest.rename source target)

/-- Asks to remove a file. -/
def removeFile (path : String) : DiskScript (Except Obstacle Unit) :=
  Script.request (DiskRequest.removeFile path)

/-- Asks to remove a directory. -/
def removeDir (path : String) : DiskScript (Except Obstacle Unit) := Script.request (DiskRequest.removeDir path)

/-- Asks for the names in a directory. -/
def list (path : String) : DiskScript (Except Obstacle Listing) := Script.request (DiskRequest.list path)

/-- Asks for what a file holds. -/
def read (path : String) : DiskScript (Except Obstacle Content) := Script.request (DiskRequest.read path)

end DiskScript

/-! ## A disk that holds a tree of files -/

namespace Files

/-- Removes a file. -/
def removeFile (t : Files) (place : List String) : Except Obstacle Files :=
  t.update (fun
    | none => .error .missing
    | some (.dir _) => .error .isDirectory
    | some (.file _) => .ok none) place

/-- What a file holds. -/
def readFile (t : Files) (place : List String) : Except Obstacle Content :=
  match t.find place with
  | .error o => .error o
  | .ok (.dir _) => .error .isDirectory
  | .ok (.file content) => .ok content

/-- Puts a file at another place, in the place of an older file if there is one. -/
def renameFile (t : Files) (source target : List String) : Except Obstacle Files := do
  let content ← t.readFile source
  let rest ← t.removeFile source
  rest.writeFile target content

theorem renameFile_eq_ok {t t' : Files} {source target : List String} :
    t.renameFile source target = .ok t' ↔ ∃ content rest, t.readFile source = .ok content ∧
      t.removeFile source = .ok rest ∧ rest.writeFile target content = .ok t' := by
  unfold renameFile
  cases t.readFile source with
  | error o => exact ⟨nofun, nofun⟩
  | ok content =>
    cases t.removeFile source with
    | error o => exact ⟨nofun, nofun⟩
    | ok rest =>
      constructor
      · exact fun h => ⟨content, rest, rfl, rfl, h⟩
      · rintro ⟨_, _, ⟨⟩, ⟨⟩, h⟩
        exact h

/-- What a change comes to: whether it was made, and the tree as it is then. -/
def changed (t : Files) : Except Obstacle Files → Except Obstacle Unit × Files
  | .error o => (.error o, t)
  | .ok t' => (.ok (), t')

end Files

/-- What a disk that holds a tree answers to a process with a working directory, and what it holds then. -/
def DiskRequest.perform (workingDirectory : List String) :
    (r : DiskRequest) → Files → r.Answer × Files
  | .makeDirs path, t => t.changed (t.makeDirs (FilePath.names workingDirectory path))
  | .write path text, t => t.changed (t.writeFile (FilePath.names workingDirectory path) (.text text))
  | .rename source target, t => t.changed
    (t.renameFile (FilePath.names workingDirectory source) (FilePath.names workingDirectory target))
  | .removeFile path, t => t.changed (t.removeFile (FilePath.names workingDirectory path))
  | .removeDir path, t => t.changed (t.removeDir (FilePath.names workingDirectory path))
  | .list path, t => ((t.readDir (FilePath.names workingDirectory path)).map Listing.ofEntries, t)
  | .read path, t => (t.readFile (FilePath.names workingDirectory path), t)

/-- **A disk** that holds a tree of files, for a process with a working directory. -/
def Files.disk (workingDirectory : List String) :
    Script.Surroundings DiskRequest DiskRequest.Answer (StateM Files) where
  answer r := modifyGet (r.perform workingDirectory)
  poll _ := return none
  sleep _ := return false

namespace DiskScript

variable {α β : Type} {workingDirectory : List String} {t : Files}

/-- What a program comes to on a disk that holds a tree, and what the disk holds then. -/
def perform (workingDirectory : List String) (s : DiskScript α) (t : Files) : α × Files :=
  (s.run (Files.disk workingDirectory)).run t

@[simp] theorem perform_done (a : α) : perform workingDirectory (.done a) t = (a, t) := rfl

/-- Programs one after the other find the disk as the one before has left it. -/
@[simp] theorem perform_andThen (s : DiskScript α) (f : α → DiskScript β) :
    perform workingDirectory (s.andThen f) t =
      perform workingDirectory (f (perform workingDirectory s t).1)
        (perform workingDirectory s t).2 := by
  induction s generalizing t with
  | done a => rfl
  | ask r next ih => exact ih _
  | poll deadline next ih => exact ih _
  | pause next ih => exact ih
  | sleep deadline next ih => exact ih _

section

variable (path text source target : String)

@[simp] theorem perform_makeDirs : perform workingDirectory (makeDirs path) t =
    t.changed (t.makeDirs (FilePath.names workingDirectory path)) := rfl

@[simp] theorem perform_write : perform workingDirectory (write path text) t =
    t.changed (t.writeFile (FilePath.names workingDirectory path) (.text text)) := rfl

@[simp] theorem perform_rename : perform workingDirectory (rename source target) t = t.changed
    (t.renameFile (FilePath.names workingDirectory source) (FilePath.names workingDirectory target)) :=
  rfl

@[simp] theorem perform_removeFile : perform workingDirectory (removeFile path) t =
    t.changed (t.removeFile (FilePath.names workingDirectory path)) := rfl

@[simp] theorem perform_removeDir : perform workingDirectory (removeDir path) t =
    t.changed (t.removeDir (FilePath.names workingDirectory path)) := rfl

@[simp] theorem perform_list : perform workingDirectory (list path) t =
    ((t.readDir (FilePath.names workingDirectory path)).map Listing.ofEntries, t) := rfl

@[simp] theorem perform_read : perform workingDirectory (read path) t =
    (t.readFile (FilePath.names workingDirectory path), t) := rfl

end

end DiskScript

end Stepflow
