import Stepflow.Shell.Machine

/-!
# Streams

A shell knows streams by small numbers: zero for what it reads, one for what it writes, two for errors.
Several numbers, also of several processes, may lead to one open stream, which then has one place in its
file.
-/

namespace Stepflow.Shell

/-- Access to a stream or a file that failed. -/
inductive Trouble where
  /-- Something stands in the way. -/
  | obstacle (o : Obstacle)
  /-- There is no such stream. -/
  | noStream
  /-- There is no permission. -/
  | forbidden
  deriving DecidableEq

namespace Trouble

/-- The wording of a trouble. -/
def reason : Trouble → String
  | .obstacle o => o.reason
  | .noStream => "Bad file descriptor"
  | .forbidden => "Permission denied"

/-- Whether nothing stands at a path. -/
def isMissing : Trouble → Bool
  | .obstacle .missing | .obstacle .notDirectory => true
  | _ => false

end Trouble

/-- The text of bytes that a file holds. -/
def contentText (c : Content) : String := Octets.ofBytes c.bytes

/-- What a file holds if its bytes are those of a text. -/
def textContent (s : String) : Content := .ofBytes (Octets.toBytes s)

/-- A text in which some characters from a position on are replaced by others; missing ones in between
count as zero. -/
def overwrite (text : String) (position : Nat) (new : String) : String :=
  let cs := text.toList
  let before := cs.take position
  let gap := List.replicate (position - before.length) '\x00'
  String.ofList (before ++ gap ++ new.toList ++ cs.drop (position + new.length))

namespace Act

/-- The place that a path leads to. -/
def placeOf (path : String) : Act (List String) := do
  return FilePath.names (← session).place (Octets.toText path)

/-- Opens a stream; gives its index. -/
def openStream (s : Stream) : Act Nat := do
  let w ← world
  changeWorld fun w => { w with streams := w.streams.push s }
  return w.streams.size

/-- The index of a stream with a number. -/
def streamIndex? (number : Nat) : Act (Option Nat) := do return (← session).streams.lookup number

/-- The stream with a number. -/
def stream? (number : Nat) : Act (Option (Nat × Stream)) := do
  match ← streamIndex? number with
  | none => return none
  | some i => return (← world).streams[i]?.map fun s => (i, s)

/-- Changes an open stream. -/
def changeStream (i : Nat) (f : Stream → Stream) : Act Unit :=
  changeWorld fun w => { w with streams := w.streams.modify i f }

/-- Lets a number lead to an open stream, or nowhere at all. -/
def connect (number : Nat) (index : Option Nat) : Act Unit :=
  change fun s =>
    let others := s.streams.filter fun e => e.1 ≠ number
    { s with streams := match index with
      | some i => (number, i) :: others
      | none => others }

/-- Runs a step with other streams. -/
def withStreams {α : Type} (step : Act α) : Act α := do
  let before := (← session).streams
  thenAlways step (change fun s => { s with streams := before })

/-! ### Files -/

/-- The names that lead to the file that takes everything and keeps nothing. -/
def nullPlace : List String := ["dev", "null"]

/-- Where the files lead that keep nothing. -/
def channelAt? (place : List String) : Option Channel :=
  if place = nullPlace then some .nowhere
  else if place = ["dev", "zero"] then some .zeros
  else none

/-- The stream that a place stands for. -/
def streamAt? : List String → Option Nat
  | ["dev", "stdin"] => some 0
  | ["dev", "stdout"] => some 1
  | ["dev", "stderr"] => some 2
  | ["dev", "fd", n] | ["proc", "self", "fd", n] => n.toNat?
  | _ => none

/-- What stands at a path. -/
def find (path : String) : Act (Except Trouble Files) := do
  return ((← world).files.findAt (← session).place (Octets.toText path)).mapError Trouble.obstacle

/-- Makes or empties a file. -/
def makeFile (place : List String) : Act (Except Trouble Unit) := do
  match (← world).files.writeFile place (.text "") with
  | .ok files =>
    setFiles files
    return .ok ()
  | .error o => return .error (.obstacle o)

/-- Opens the file at a path. `keep` says that a file which is there may not be emptied. -/
def openFile (access : Access) (path : String) (keep : Bool) : Act (Except Trouble Nat) := do
  let files := (← world).files
  let origin := (← session).place
  let path := Octets.toText path
  let followed := if access matches .read then files.followTo origin path else files.followNew origin path
  let place ← match followed with
    | .ok place => pure place
    | .error o => return .error (.obstacle o)
  if let some channel := channelAt? place then
    return .ok (← openStream { channel, reads := true, writes := true })
  if let some n := streamAt? place then
    match ← streamIndex? n with
    | some i => return .ok i
    | none => return .error (.obstacle .missing)
  let file := Channel.file place
  match access, files.find place with
  | .read, .ok (.file _) => return .ok (← openStream { channel := file, reads := true })
  | .read, .ok (.dir _) => return .ok (← openStream { channel := .directory, reads := true })
  | .read, .error o => return .error (.obstacle o)
  | _, .ok (.dir _) => return .error (.obstacle .isDirectory)
  | .update, .ok (.file _) => return .ok (← openStream { channel := file, reads := true, writes := true })
  | .append, .ok (.file _) => return .ok (← openStream { channel := file, writes := true, appends := true })
  | access, .ok (.file _) =>
    if access = .write && keep then return .error (.obstacle .exists)
    match ← makeFile place with
    | .ok () => return .ok (← openStream { channel := file, writes := true })
    | .error e => return .error e
  | access, .error .missing =>
    match ← makeFile place with
    | .ok () =>
      return .ok (← openStream
        { channel := file, reads := access = .update, writes := true, appends := access = .append })
    | .error e => return .error e
  | _, .error o => return .error (.obstacle o)

/-- Opens a stream from which a text can be read. -/
def openText (text : String) : Act Nat := openStream { channel := .pipe text, reads := true }

/-! ### Writing -/

/-- How much room is between the commands of a pipeline; who has used it up is ended. -/
def pipeRoom : Nat := 4194304

/-- How much room a text takes: a byte for each of its own, and some for the act of writing. -/
def roomOf (text : String) : Nat := text.utf8ByteSize + 32

/-- Writes into a file at a place. -/
def writeAt (place : List String) (position : Nat) (text : String) : Act Unit := do
  let w ← world
  if let .ok (.file c) := w.files.find place then
    let old := contentText c
    let new := if position = old.length then old ++ text else overwrite old position text
    if let .ok files := w.files.writeFile place (textContent new) then setFiles files

/-- The number of bytes in a file. -/
def sizeAt (place : List String) : Act Nat := do
  match (← world).files.find place with
  | .ok (.file c) => return c.bytes.length
  | _ => return 0

/-- Adds a text to what waits in a stream. -/
def fill (text : String) (s : Stream) : Stream :=
  match s with
  | { channel := .pipe old, reads, writes, appends, position, room } =>
    { channel := .pipe (old ++ text), reads, writes, appends, position
      room := room.map (· - roomOf text) }
  | s => s

/-- Whether nothing more can be written to a stream. -/
def isFull (s : Stream) : Bool := s.room = some 0

/-- Writes to an open stream. -/
def writeTo (i : Nat) (s : Stream) (text : String) : Act Unit := do
  match s.channel with
  | .output => changeWorld fun w => { w with output := w.output ++ text }
  | .errors => changeWorld fun w => { w with errors := w.errors ++ text }
  | .nowhere | .zeros | .directory => return
  | .pipe _ =>
    changeStream i (fill text)
    if ((← world).streams[i]?.map isFull).getD false then
      throw (.killed (← session).process Signal.pipe)
  | .file place =>
    let position ← if s.appends then sizeAt place else pure s.position
    writeAt place position text
    changeStream i fun s => { s with position := position + text.length }

/-- Writes to a stream; says whether that was possible. -/
def write (number : Nat) (text : String) : Act Bool := do
  match ← stream? number with
  | none => return text = ""
  | some (i, s) =>
    if !s.writes then return text = ""
    writeTo i s text
    return true

/-- Writes to the output; says whether that was possible. -/
def put (text : String) : Act Bool := write 1 text

/-- Writes to the output when the present command of the shell ends. -/
def say (text : String) : Act Unit := change fun s => { s with unsaid := s.unsaid ++ text }

/-- Writes what is still to be written; says whether that was possible. -/
def flush : Act Bool := do
  let text := (← session).unsaid
  change fun s => { s with unsaid := "" }
  put text

/-- Writes to the errors. -/
def putError (text : String) : Act Unit := do let _ ← write 2 text

/-! ### Reading -/

/-- How many of the zero bytes without end there are. -/
def zeroCount : Nat := 1048576

/-- What is left to read in a stream. -/
def remaining (number : Nat) : Act (Except Trouble String) := do
  match ← stream? number with
  | none => return .error .noStream
  | some (_, s) =>
    if !s.reads then return .error .noStream
    match s.channel with
    | .pipe text => return .ok text
    | .file place =>
      match (← world).files.find place with
      | .ok (.file c) => return .ok (String.ofList ((contentText c).toList.drop s.position))
      | _ => return .ok ""
    | .directory => return .error (.obstacle .isDirectory)
    | .zeros => return .ok (String.ofList (List.replicate zeroCount '\x00'))
    | _ => return .ok ""

/-- Passes over some bytes of a stream. -/
def skip (number bytes : Nat) : Act Unit := do
  if let some (i, _) ← stream? number then
    changeStream i fun s => match s.channel with
      | .pipe text => { s with channel := .pipe (String.ofList (text.toList.drop bytes)) }
      | .file _ => { s with position := s.position + bytes }
      | _ => s

/-- Reads all that is left in a stream. -/
def readAll (number : Nat) : Act (Except Trouble String) := do
  let text ← remaining number
  if let .ok text := text then skip number text.length
  return text

/-- All that is in the file at a path. -/
def readPath (path : String) : Act (Except Trouble String) := do
  match ← openFile .read path false with
  | .error t => return .error t
  | .ok i =>
    let free := 10
    withStreams do
      connect free (some i)
      readAll free

/-- Writes a text to the file at a path. -/
def writePath (access : Access) (path text : String) : Act (Except Trouble Unit) := do
  match ← openFile access path false with
  | .error t => return .error t
  | .ok i =>
    let free := 10
    withStreams do
      connect free (some i)
      return if ← write free text then .ok () else .error .noStream

/-! ### Complaints -/

/-- How a complaint of the shell begins. -/
def complaintStart : Act String := do
  let s ← session
  let start := s.name ++ ": " ++ toString s.line ++ ": "
  return match s.running with
    | some command => start ++ command ++ ": "
    | none => start

/-- Complains. -/
def complain (message : String) : Act Unit := do putError ((← complaintStart) ++ message ++ "\n")

/-- The number with which a shell ends after an error. -/
def errorStatus : Nat := 2

/-- Complains, and stops what is running. -/
def raise {α : Type} (message : String) : Act α := do
  complain message
  setStatus errorStatus
  throw .failed

end Act

end Stepflow.Shell
