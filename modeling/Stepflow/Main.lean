import Std.Time.DateTime.Timestamp
import Stepflow.CommandLine.Program
import Stepflow.Text.Basic

/-!
# The program on a machine

The outer layer of the program. It reads the files that a command may look at into a tree, lets
`CommandLine.program` decide what is to be done with them, follows the run that is pending, if one is,
and writes back what changed in the tree.
-/

namespace Stepflow.Machine

open CommandLine

/-- How deep directories are read. -/
def depthLimit : Nat := 16

/-- Reads what stands at a path. What cannot be read is missing. -/
def readTree : (depth : Nat) → String → IO (Option Files)
  | 0, _ => return none
  | depth + 1, path => do
    try
      let mut entries : List (String × Files) := []
      for entry in ← (← IO.FS.realPath path).readDir do
        if let some t ← readTree depth (FilePath.join path entry.fileName) then
          entries := entries ++ [(entry.fileName, t)]
      return some (.dir entries)
    catch _ =>
      try return some (.file (.ofBytes (← IO.FS.readBinFile path).toList))
      catch _ => return none

/-- Adds what stands at a path to a tree. -/
def addPath (e : Environment) (t : Files) (path : String) : IO Files := do
  match ← readTree depthLimit (FilePath.absolute (e.names path)) with
  | none => return t
  | some found =>
    let place := e.names path
    let added := do
      let t ← t.makeDirs place.dropLast
      t.update (fun _ => .ok (some found)) place
    return added.toOption.getD t

/-- Removes what stands at a path. -/
def remove (path : String) (old : Files) : IO Unit :=
  match old with
  | .dir _ => IO.FS.removeDirAll path
  | .file _ => IO.FS.removeFile path

/-- Writes what changed below a path. -/
partial def writeBack (path : String) (old : Option Files) (new : Files) : IO Unit := do
  match old, new with
  | some (.file a), .file b =>
    if a ≠ b then IO.FS.writeBinFile path ⟨b.bytes.toArray⟩
  | _, .file b =>
    if let some t := old then remove path t
    IO.FS.writeBinFile path ⟨b.bytes.toArray⟩
  | some (.dir before), .dir after =>
    for (name, t) in before do
      if (after.lookup name).isNone then remove (FilePath.join path name) t
    for (name, t) in after do
      writeBack (FilePath.join path name) (before.lookup name) t
  | _, .dir after =>
    if let some t := old then remove path t
    IO.FS.createDirAll path
    for (name, t) in after do
      writeBack (FilePath.join path name) none t

/-- The time of day. -/
def today : IO Instant := do
  let now ← Std.Time.Timestamp.now
  return { seconds := now.val.second.val, nanos := now.val.nano.val.toNat }

/-- A fresh identifier. -/
def freshId : IO String := do
  let now ← today
  let random ← IO.rand 0 (Nat.pow 2 74 - 1)
  return Identifier.ofNat
    (Identifier.timed (now.seconds.toNat * 1000 + now.nanos / 1000000) random)

/-- What is kept while a run is followed. -/
structure Memory where
  /-- The files as they are now. -/
  files : Files
  /-- What components came back with, by their tickets. -/
  replies : Array (Except String Reply) := #[]

/-- Changes the files, in memory and on the disk. -/
def change (memory : IO.Ref Memory) (new : Files) : IO Unit := do
  let m ← memory.get
  writeBack "/" (some m.files) new
  memory.set { m with files := new }

/-- Changes the files by an operation on checkpoints. -/
def changeBy {α : Type} (memory : IO.Ref Memory) (f : Files → α × Files) : IO α := do
  let (result, new) := f (← memory.get).files
  change memory new
  return result

/-- Answers a request of a run. -/
def answer (memory : IO.Ref Memory) (s : Session) (store : FileStore) :
    (r : Request Builtin) → IO r.Answer
  | .tell e => IO.print (told s.options e)
  | .isCancelled => return false
  | .now => IO.monoNanosNow
  | .today => today
  | .jitter => return (← IO.rand 0 999999).toFloat / 1000000
  | .freshId => freshId
  | .begin _ _ component input => do
    let m ← memory.get
    let p := component.perform s.environment input m.files
    if let some new := p.files then change memory new
    memory.modify fun m => { m with replies := m.replies.push p.reply }
    return ⟨m.replies.size, p.pauses⟩
  | .collect ticket => return ((← memory.get).replies[ticket]?).getD (.error "nothing was called")
  | .defer _ => return ()
  | .save run c => changeBy memory (store.save run c)
  | .latest run => return store.store.latest run (← memory.get).files
  | .clear run => changeBy memory (store.clear run)

/-- The surroundings of runs on a machine. -/
def surroundings (memory : IO.Ref Memory) (s : Session) (store : FileStore) :
    Script.Surroundings (Inquiry Builtin) Inquiry.Answer IO where
  answer q := answer memory s store q.request
  poll deadline := do
    return if deadline ≤ (← IO.monoNanosNow) then some false else none
  sleep deadline := do
    let now ← IO.monoNanosNow
    IO.sleep ((deadline - now) / nanosPerMilli + 1).toUInt32
    return false

/-- Writes a report, and gives the number with which the program ends. -/
def finish (r : CommandLine.Report) : IO UInt32 := do
  IO.eprint r.errors
  IO.print r.out
  return r.status.toUInt32

/-- Follows a planned run to its end. -/
def follow (s : Session) (p : Plan) : IO UInt32 := do
  IO.eprint (Session.warnings s.found)
  let memory ← IO.mkRef { files := s.files : Memory }
  finish (s.ended (← p.script.run (surroundings memory s p.store)))

/-- The environment of this process, with the variables that the program looks at. -/
def environment : IO Environment := do
  let directory := (← IO.currentDir).toString
  let names := ["HOME", "XDG_CONFIG_HOME", builtinDirVariable, Config.checkpointDirVariable]
  let values ← names.mapM fun name => return (name, ← IO.getEnv name)
  return {
    directory, place := FilePath.names [] directory
    valueOf := fun name => (values.lookup name).join }

/-- The files that a command may look at: the working directory, those that the arguments name, those
that are searched for workflows, and the checkpoints. -/
def filesFor (arguments : List String) (e : Environment) : IO Files := do
  let mut t ← addPath e .empty e.directory
  for path in arguments do
    t ← addPath e t path
  if let .ok i := Invocation.ofArguments arguments e then
    for d in Session.directories i.options e do
      t ← addPath e t d.path
    let root := Session.projectRoot i.options e
    t ← addPath e t (FilePath.join root Config.fileName)
    if let .ok c := Config.forProject t e.place e.valueOf root then
      t ← addPath e t c.checkpointDir
  return t

end Stepflow.Machine

open Stepflow in
/-- Runs the program with its arguments. -/
def main (arguments : List String) : IO UInt32 := do
  let e ← Machine.environment
  match CommandLine.program arguments e (← Machine.filesFor arguments e) with
  | .finished r => Machine.finish r
  | .pending s p => Machine.follow s p
