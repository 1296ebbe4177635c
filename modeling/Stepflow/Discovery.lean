import Stepflow.Files.Follow
import Stepflow.Validation.Load
import Stepflow.Workflow.Metadata

/-!
# Discovery

Workflows are found in the directories of three sources: those that come with the program, those of
the user and those of the project. Of the workflows of one name that of the highest source is
selected and shadows the others; two of one name in one source are a conflict.

Names and conflicts are settled by the metadata of the files alone. Only a selected file is loaded in
full, and if that fails, the file is skipped and the next one below takes its place. The order in
which directories list their files does not matter.
-/

namespace Stepflow

/-- Where workflows come from. -/
inductive Source where
  /-- With the program. -/
  | builtin
  /-- From the user. -/
  | user
  /-- From the project. -/
  | project
  deriving DecidableEq, Repr

namespace Source

/-- All sources, those that are shadowed first. -/
def all : List Source := [.builtin, .user, .project]

/-- The name of a source. -/
def word : Source → String
  | .builtin => "builtin"
  | .user => "user"
  | .project => "project"

end Source

namespace Discovery

/-- A directory that is searched for workflows, with the entries found in it. -/
structure Place where
  /-- The source of the workflows in it. -/
  source : Source
  /-- Its path. -/
  path : String
  /-- Its entries, in any order. -/
  entries : List (String × Files)

/-- A file whose metadata have been read. -/
structure Candidate where
  /-- The metadata. -/
  metadata : Metadata
  /-- The path of the file. -/
  path : String
  /-- Where it comes from. -/
  source : Source
  /-- The document. -/
  text : String

/-- A file that was not used. -/
structure Skipped where
  /-- The path of the file. -/
  path : String
  /-- Where it comes from. -/
  source : Source
  /-- Why it was not used. -/
  error : String
  deriving DecidableEq, Repr

/-- Several files of one source that define the same name. -/
structure Conflict where
  /-- The name. -/
  name : String
  /-- The source. -/
  source : Source
  /-- The paths of the files, in order. -/
  paths : List String
  deriving DecidableEq, Repr

/-- A workflow that was selected. -/
structure Found where
  /-- The workflow. -/
  workflow : Workflow
  /-- The metadata of its file. -/
  metadata : Metadata
  /-- The path of its file. -/
  path : String
  /-- Where it comes from. -/
  source : Source
  /-- The paths of the files it shadows, the nearest source first. -/
  overrides : List String

/-- What discovery found. -/
structure Outcome where
  /-- The selected workflows by their names. -/
  workflows : Table Found
  /-- The files that were not used. -/
  skipped : List Skipped

/-- The wording of a conflict. -/
def Conflict.message (c : Conflict) : String :=
  "workflow '" ++ c.name ++ "' is defined more than once in " ++ c.source.word ++ " workflows: " ++
    ", ".intercalate c.paths

/-- The wording of a list of conflicts. -/
def conflictMessage (conflicts : List Conflict) : String :=
  "conflicting workflow definitions:\n" ++
    "\n".intercalate (conflicts.map fun c => "  " ++ c.message)

/-- The extensions of the files of workflows. -/
def extensions : List String := ["yaml", "yml"]

/-- The text of an entry that is the file of a workflow; the text itself may be missing. -/
def document? : String × Files → Option (String × Option String)
  | (name, .file content) =>
    if extensions.any (FilePath.hasExtension name) then some (name, content.text?) else none
  | (_, .dir _) => none

/-- The files of workflows among the entries of a directory, in the order of their names. -/
def documents (entries : List (String × Files)) : List (String × Option String) :=
  (entries.filterMap document?).mergeSort fun a b => a.1 ≤ b.1

/-- Reads the metadata of a file. -/
def Place.read (p : Place) : String × Option String → Except Skipped Candidate
  | (name, text) =>
    let path := FilePath.join p.path name
    match text with
    | none => .error ⟨path, p.source, Obstacle.notText.message⟩
    | some text =>
      match Metadata.ofText? text with
      | none => .error ⟨path, p.source, "invalid workflow metadata"⟩
      | some metadata => .ok { metadata, path, source := p.source, text }

/-- What was read of every file of a place, in the order of the files. -/
def Place.readings (p : Place) : List (Except Skipped Candidate) := (documents p.entries).map p.read

/-- The candidates of a place. -/
def Place.candidates (p : Place) : List Candidate := p.readings.filterMap Except.toOption

/-- The files of a place whose metadata cannot be read. -/
def Place.unreadable (p : Place) : List Skipped :=
  p.readings.filterMap fun
    | .error s => some s
    | .ok _ => none

/-- Adds a candidate to those of its name. -/
def gather (groups : Table (List Candidate)) (c : Candidate) : Table (List Candidate) :=
  groups.insert c.metadata.name ((groups.get? c.metadata.name).getD [] ++ [c])

/-- The candidates of a place by their names. -/
def Place.groups (p : Place) : Table (List Candidate) := p.candidates.foldl gather []

/-- The conflicts of a place: the names that several files define. -/
def Place.conflicts (p : Place) : List Conflict :=
  p.groups.filterMap fun (name, group) =>
    if 1 < group.length then some ⟨name, p.source, group.map Candidate.path⟩ else none

/-- Puts the candidates of a higher place in front of those of the same name. -/
def rank (ranked : Table (List Candidate)) (p : Place) : Table (List Candidate) :=
  p.groups.foldl (fun t (name, group) => t.insert name (group ++ (t.get? name).getD [])) ranked

/-- The first candidate that can be loaded, and those before it. -/
def select : List Candidate → Option Found × List Skipped
  | [] => (none, [])
  | c :: below =>
    match Document.loadUnresolved c.text with
    | .ok workflow =>
      (some { workflow, metadata := c.metadata, path := c.path, source := c.source
              overrides := below.map Candidate.path }, [])
    | .error e =>
      let (found, skipped) := select below
      (found, ⟨c.path, c.source, e.message⟩ :: skipped)

/-- **Discovery** in some places, those that are shadowed first: the conflicts, if there are any,
or else what was selected and what was skipped. -/
def discover (places : List Place) : Except (List Conflict) Outcome :=
  let conflicts := places.flatMap Place.conflicts
  if !conflicts.isEmpty then .error conflicts
  else
    let selections := (places.foldl rank []).map fun (name, cs) => (name, select cs)
    .ok {
      workflows := selections.filterMap fun (name, found, _) => found.map (name, ·)
      skipped := places.flatMap Place.unreadable ++ selections.flatMap fun (_, _, skipped) => skipped }

/-- A directory that is to be searched. -/
structure Directory where
  /-- The source of the workflows in it. -/
  source : Source
  /-- Its path. -/
  path : String
  deriving DecidableEq, Repr

/-- The places that some directories are; one that cannot be read has no entries. -/
def places (t : Files) (workingDirectory : List String) (directories : List Directory) : List Place :=
  directories.map fun d =>
    { source := d.source, path := d.path
      entries := (t.readDirAt workingDirectory d.path).toOption.getD [] }

/-- The directory of workflows below that of the user's configuration. -/
def userDirectory (configuration : String) : String :=
  FilePath.join (FilePath.join configuration "maverick") "workflows"

/-- The directory of workflows of a project. -/
def projectDirectory (root : String) : String :=
  FilePath.join (FilePath.join root ".maverick") "workflows"

end Discovery

end Stepflow
