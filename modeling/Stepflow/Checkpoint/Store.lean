import Stepflow.Checkpoint.Basic
import Stepflow.Files.Disk

/-!
# Stores of checkpoints

A store keeps the checkpoints of any number of runs. `CheckpointStore` lists its operations over a
state; two stores are given.

`MemoryStore` keeps a list for every run, in the order of saving. A checkpoint that is saved again
under the same identifier is kept a second time.

`FileStore` keeps a directory for every run below a root, with one file of JSON text for every
checkpoint. Identifiers must be plain names, so that a run's files stay in its directory. Files in it
that hold no checkpoint are passed over, and the order in which the directory lists its files does
not matter. What its operations make of a tree of files comes first, and then how they go about it.
-/

namespace Stepflow

/-- The operations of a store over a state. -/
structure CheckpointStore (σ : Type) where
  /-- Keeps a checkpoint of a run. -/
  save : String → Checkpoint → σ → Except CheckpointError Unit × σ
  /-- The checkpoint of a run with an identifier. -/
  load : String → String → σ → Except CheckpointError Checkpoint
  /-- The newest checkpoint of a run. -/
  latest : String → σ → Except CheckpointError (Option Checkpoint)
  /-- Removes all checkpoints of a run. -/
  clear : String → σ → Except CheckpointError Unit × σ
  /-- The identifiers of the checkpoints of a run, the oldest first. -/
  list : String → σ → Except CheckpointError (List String)

/-- A store whose state is a part of a larger one. -/
def CheckpointStore.within {σ τ : Type} (s : CheckpointStore σ) (part : τ → σ) (put : τ → σ → τ) :
    CheckpointStore τ where
  save run c t := let (r, u) := s.save run c (part t); (r, put t u)
  load run id t := s.load run id (part t)
  latest run t := s.latest run (part t)
  clear run t := let (r, u) := s.clear run (part t); (r, put t u)
  list run t := s.list run (part t)

namespace MemoryStore

/-- The checkpoints of all runs. -/
abbrev Runs := Table (List Checkpoint)

/-- The checkpoints of a run, in the order of saving. -/
def ofRun (runs : Runs) (run : String) : List Checkpoint := (runs.get? run).getD []

/-- Keeps a checkpoint of a run; its identifier is not looked at. -/
def save (run : String) (c : Checkpoint) (runs : Runs) : Except CheckpointError Unit × Runs :=
  match Checkpoint.checkId run with
  | .error e => (.error e, runs)
  | .ok () => (.ok (), runs.insert run (ofRun runs run ++ [c]))

/-- The checkpoint that was first saved under an identifier. -/
def load (run id : String) (runs : Runs) : Except CheckpointError Checkpoint :=
  match (ofRun runs run).find? fun c => c.id = id with
  | some c => .ok c
  | none => .error (.notFound run (some id))

/-- A store in memory. -/
def store : CheckpointStore Runs where
  save := save
  load := load
  latest run runs := .ok (Checkpoint.newest? (ofRun runs run))
  clear run runs := (.ok (), runs.insert run [])
  list run runs := .ok ((Checkpoint.oldestFirst (ofRun runs run)).map Checkpoint.id)

end MemoryStore

/-- A store of files: the path of its root, and the names that lead there. -/
structure FileStore where
  /-- The path, as it is shown. -/
  path : String
  /-- The names that lead to the root. -/
  place : List String

namespace FileStore

/-- The extension of the files of checkpoints. -/
def extension : String := "json"

/-- The name of the file of a checkpoint. -/
def fileName (id : String) : String := id ++ "." ++ extension

/-- The bytes by which the name under which a file is first written is longer than the identifier:
two points, an identifier of 36 characters, and the ending `.tmp`. -/
def scratchLength : Nat := 42

/-- The path of the directory of a run. -/
def runPath (s : FileStore) (run : String) : String := FilePath.join s.path run

/-- The place of the directory of a run. -/
def runPlace (s : FileStore) (run : String) : List String := s.place ++ [run]

/-- A failure at the directory of a run. -/
def blockedAt (s : FileStore) (run : String) (o : Obstacle) : CheckpointError :=
  .blocked (s.runPath run) o

/-- A failure at the file of a checkpoint. -/
def blockedAtFile (s : FileStore) (run id : String) (o : Obstacle) : CheckpointError :=
  .blocked (FilePath.join (s.runPath run) (fileName id)) o

/-- The checkpoint in an entry of a directory. -/
def checkpoint? (entry : String × Files) : Option Checkpoint :=
  if FilePath.hasExtension entry.1 extension then
    match entry.2 with
    | .file content => content.text?.bind Checkpoint.ofText?
    | .dir _ => none
  else none

/-- The checkpoints in the directory of a run, in the order of its entries. -/
def readAll (s : FileStore) (run : String) (t : Files) : Except CheckpointError (List Checkpoint) := do
  Checkpoint.checkId run
  match t.readDir (s.runPlace run) with
  | .ok entries => return entries.filterMap checkpoint?
  | .error .missing => return []
  | .error o => throw (s.blockedAt run o)

/-- Writes a checkpoint of a run: the directory is made, and the file written under a name of its own
before it is put in its place. -/
def save (s : FileStore) (run : String) (c : Checkpoint) (t : Files) :
    Except CheckpointError Unit × Files :=
  match Checkpoint.checkId c.id, Checkpoint.checkId run with
  | .error e, _ => (.error e, t)
  | _, .error e => (.error e, t)
  | .ok (), .ok () =>
    match t.makeDirs (s.runPlace run) with
    | .error o => (.error (s.blockedAt run o), t)
    | .ok t =>
      if Files.nameLimit < c.id.utf8ByteSize + scratchLength then
        (.error (s.blockedAtFile run c.id .longName), t)
      else match t.writeFile (s.runPlace run ++ [fileName c.id]) (.text c.text) with
        | .error o => (.error (s.blockedAtFile run c.id o), t)
        | .ok t => (.ok (), t)

/-- The checkpoint in the file of an identifier. -/
def load (s : FileStore) (run id : String) (t : Files) : Except CheckpointError Checkpoint := do
  Checkpoint.checkId id
  Checkpoint.checkId run
  match t.find (s.runPlace run ++ [fileName id]) with
  | .error .missing => throw (.notFound run (some id))
  | .error o => throw (s.blockedAtFile run id o)
  | .ok (.dir _) => throw (s.blockedAtFile run id .isDirectory)
  | .ok (.file content) =>
    match content.text?.bind Checkpoint.ofText? with
    | some c => return c
    | none => throw .unreadable

/-- Removes the directory of a run. -/
def clear (s : FileStore) (run : String) (t : Files) : Except CheckpointError Unit × Files :=
  match Checkpoint.checkId run with
  | .error e => (.error e, t)
  | .ok () =>
    match t.removeDir (s.runPlace run) with
    | .ok t => (.ok (), t)
    | .error .missing => (.ok (), t)
    | .error o => (.error (s.blockedAt run o), t)

/-- A store of files as a store of checkpoints. -/
def store (s : FileStore) : CheckpointStore Files where
  save := s.save
  load := s.load
  latest run t := (s.readAll run t).map Checkpoint.newest?
  clear := s.clear
  list run t := (s.readAll run t).map fun cs => (Checkpoint.oldestFirst cs).map Checkpoint.id

end FileStore

end Stepflow

/-!
## What a store of files asks of its disk

Which paths the operations name to the disk, in which order, and what they do about whatever the disk
answers. All paths are put together from the path of the root, the identifiers, and the names that the
disk lists.

A checkpoint is first written under a name of its own and then put in its place, so that nobody reads
half of one; the name under which it is first written ends with a number that is drawn for it.
-/

namespace Stepflow.FileStore

/-- The name under which the file of a checkpoint is first written. -/
def scratchName (id : String) (drawn : Nat) : String :=
  "." ++ id ++ "." ++ Identifier.ofNat drawn ++ ".tmp"

/-- The path of the file of a checkpoint. -/
def filePath (s : FileStore) (run id : String) : String :=
  FilePath.join (s.runPath run) (fileName id)

/-- The path under which it is first written. -/
def scratchPath (s : FileStore) (run id : String) (drawn : Nat) : String :=
  FilePath.join (s.runPath run) (scratchName id drawn)

/-- Goes on if an identifier is a plain name; else nothing is asked for. -/
def checking {α : Type} (id : String) (next : DiskScript (Except CheckpointError α)) :
    DiskScript (Except CheckpointError α) :=
  match Checkpoint.checkId id with
  | .error e => .done (.error e)
  | .ok () => next

/-- Removes what was written of a checkpoint that could not be put in its place; whether this succeeds
does not matter. -/
def giveUp (s : FileStore) (run id : String) (drawn : Nat) (e : CheckpointError) :
    DiskScript (Except CheckpointError Unit) := do
  let _ ← DiskScript.removeFile (s.scratchPath run id drawn)
  return .error e

/-- Writes the file of a checkpoint in a directory that is there, and puts it in its place. -/
def putting (s : FileStore) (drawn : Nat) (run : String) (c : Checkpoint) :
    DiskScript (Except CheckpointError Unit) := do
  match ← DiskScript.write (s.scratchPath run c.id drawn) c.text with
  | .error o => s.giveUp run c.id drawn (.blocked (s.scratchPath run c.id drawn) o)
  | .ok () =>
    match ← DiskScript.rename (s.scratchPath run c.id drawn) (s.filePath run c.id) with
    | .error o => s.giveUp run c.id drawn (s.blockedAtFile run c.id o)
    | .ok () => return .ok ()

/-- Writes a checkpoint of a run. -/
def saving (s : FileStore) (drawn : Nat) (run : String) (c : Checkpoint) :
    DiskScript (Except CheckpointError Unit) :=
  checking c.id <| checking run <| do
    match ← DiskScript.makeDirs (s.runPath run) with
    | .error o => return .error (s.blockedAt run o)
    | .ok () => s.putting drawn run c

/-- Reads the file of an identifier. -/
def loading (s : FileStore) (run id : String) : DiskScript (Except CheckpointError Checkpoint) :=
  checking id <| checking run <| do
    match ← DiskScript.read (s.filePath run id) with
    | .error .missing => return .error (.notFound run (some id))
    | .error o => return .error (s.blockedAtFile run id o)
    | .ok content =>
      match content.text?.bind Checkpoint.ofText? with
      | some c => return .ok c
      | none => return .error .unreadable

/-- Reads the files of a directory one after the other, as far as their names have the extension of
checkpoints; what cannot be read is passed over. -/
def readingEach (dir : String) : List FilePath.Name → DiskScript (List Checkpoint)
  | [] => return []
  | name :: rest =>
    if FilePath.hasExtension name.text extension then do
      let content ← DiskScript.read (FilePath.join dir name.text)
      let found ← readingEach dir rest
      return (content.toOption.bind fun c => c.text?.bind Checkpoint.ofText?).toList ++ found
    else readingEach dir rest

/-- Reads all checkpoints in the directory of a run. -/
def readingAll (s : FileStore) (run : String) :
    DiskScript (Except CheckpointError (List Checkpoint)) :=
  checking run <| do
    match ← DiskScript.list (s.runPath run) with
    | .error .missing => return .ok []
    | .error o => return .error (s.blockedAt run o)
    | .ok listing =>
      let found ← readingEach (s.runPath run) listing.names
      match listing.brokenBy with
      | some o => return .error (s.blockedAt run o)
      | none => return .ok found

/-- Removes the directory of a run. -/
def clearing (s : FileStore) (run : String) : DiskScript (Except CheckpointError Unit) :=
  checking run <| do
    match ← DiskScript.removeDir (s.runPath run) with
    | .ok () | .error .missing => return .ok ()
    | .error o => return .error (s.blockedAt run o)

end Stepflow.FileStore
