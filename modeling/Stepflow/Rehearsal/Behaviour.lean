import Stepflow.Builtin
import Stepflow.Checkpoint.Store
import Stepflow.Run.Request
import Stepflow.Text.Basic

/-!
# Rehearsals

A small world for runs, and what components do in it.
-/

/-!
## A world for rehearsals

A small world in which runs are rehearsed: it keeps what was told and called, its clock moves only
when everything sleeps, and its identifiers are counted. What components do in it is given by a
function, so a rehearsal has the same outcome every time.

`World.surroundings` answers the requests of runs in this world.
-/

namespace Stepflow

/-- A call of a component. -/
structure CallRecord where
  /-- The namespace of the component. -/
  space : Namespace
  /-- Its name. -/
  name : String
  /-- What it was given. -/
  input : Input

/-- Where checkpoints are kept. -/
inductive Keeper where
  /-- Nowhere. -/
  | nowhere
  /-- In memory. -/
  | memory
  /-- In files. -/
  | files (store : FileStore)

/-- A world in which runs are rehearsed. -/
structure World where
  /-- What was told, in order. -/
  events : List Event := []
  /-- The calls made, in order. -/
  calls : List CallRecord := []
  /-- The refusals put off, in order. -/
  deferred : List RegistryError := []
  /-- What calls that have begun are going to come to, by their tickets. -/
  performances : List Performance := []
  /-- Whether all is cancelled. -/
  cancelled : Bool := false
  /-- The time that has passed, in nanoseconds. -/
  clock : Nat := 0
  /-- The number of identifiers drawn. -/
  drawn : Nat := 0
  /-- The checkpoints kept in memory. -/
  runs : MemoryStore.Runs := []
  /-- The files. -/
  files : Files := .empty

namespace World

/-- The time of day at which a rehearsal begins: the start of the year 2026. -/
def beginning : Instant := ⟨1767225600, 0⟩

/-- The time of day. -/
def today (w : World) : Instant :=
  { seconds := beginning.seconds + (w.clock / Instant.second : Nat)
    nanos := w.clock % Instant.second }

/-- The identifier that is drawn after a number of others. -/
def identifier (n : Nat) : String := Identifier.ofNat (Identifier.timed 0 n)

/-- How often a component was called. -/
def callCount (w : World) (space : Namespace) (name : String) : Nat :=
  w.calls.countP fun c => c.space = space && c.name = name

/-- The checkpoints of a world as a store. -/
def store : Keeper → CheckpointStore World
  | .nowhere =>
    { save := fun _ _ w => (.ok (), w)
      load := fun run id _ => .error (.notFound run (some id))
      latest := fun _ _ => .ok none
      clear := fun _ w => (.ok (), w)
      list := fun _ _ => .ok [] }
  | .memory => MemoryStore.store.within World.runs fun w runs => { w with runs }
  | .files s => s.store.within World.files fun w files => { w with files }

/-- Answers a request. `perform` says what a component does at its call of a number, from the first
one on, with its input and the files that there are. -/
def answer {κ : Type} (perform : Nat → κ → Input → Files → Performance) (keeper : Keeper) :
    (r : Request κ) → StateM World r.Answer
  | .tell e => modify fun w => { w with events := w.events ++ [e] }
  | .isCancelled => return (← get).cancelled
  | .now => return (← get).clock
  | .today => return (← get).today
  | .jitter => return 0
  | .freshId => modifyGet fun w => (identifier w.drawn, { w with drawn := w.drawn + 1 })
  | .begin space name component input => modifyGet fun w =>
    let p := perform (w.callCount space name + 1) component input w.files
    (⟨w.performances.length, p.pauses⟩,
      { w with
        calls := w.calls ++ [⟨space, name, input⟩]
        performances := w.performances ++ [p]
        files := p.files.getD w.files })
  | .collect ticket => modifyGet fun w =>
    match w.performances[ticket]? with
    | none => (.error "nothing was called", w)
    | some p => (p.reply, { w with cancelled := w.cancelled || p.cancels })
  | .defer e => modify fun w => { w with deferred := w.deferred ++ [e] }
  | .save run c => modifyGet ((store keeper).save run c)
  | .latest run => return (store keeper).latest run (← get)
  | .clear run => modifyGet ((store keeper).clear run)

/-- Answers whether a sleep is over: it is if all is cancelled or the deadline has come. -/
def poll (deadline : Nat) : StateM World (Option Bool) := do
  let w ← get
  if w.cancelled then return some true
  else if deadline ≤ w.clock then return some false
  else return none

/-- Sleeps: the clock moves on to the deadline, unless all is cancelled. -/
def sleep (deadline : Nat) : StateM World Bool := modifyGet fun w =>
  if w.cancelled then (true, w) else (false, { w with clock := max w.clock deadline })

/-- **The surroundings** of runs that are rehearsed in a world. -/
def surroundings {κ : Type} (perform : Nat → κ → Input → Files → Performance) (keeper : Keeper) :
    Script.Surroundings (Inquiry κ) Inquiry.Answer (StateM World) where
  answer q := answer perform keeper q.request
  poll := poll
  sleep := sleep

end World

/-!
## Behaviours

In a rehearsal a component does what it is told: at each call it gives way a number of times, may
cancel all, and then fails, gives something back, counts its calls, or gives back what it was given.
A list of behaviours is for as many calls; the last one stays in force.
-/

/-- What a component comes back with. -/
inductive Outcome where
  /-- A failure, told from the outermost cause to the innermost. -/
  | failing (causes : List String)
  /-- A reply. -/
  | giving (r : Reply)
  /-- The number of its calls. -/
  | counting
  /-- What it was given. -/
  | echoing

/-- What a component does at a call. -/
structure Behaviour where
  /-- How often it gives way. -/
  pauses : Nat := 0
  /-- Whether it then cancels all. -/
  cancels : Bool := false
  /-- What it comes back with. -/
  outcome : Outcome := .echoing

/-- A component of a rehearsal. -/
inductive Rehearsed where
  /-- One of those that come with the library. -/
  | builtin (b : Builtin)
  /-- One that does what it is told. -/
  | told (behaviours : List Behaviour)

/-- What a behaviour comes back with at a call of a number. -/
def Outcome.reply (o : Outcome) (number : Nat) (input : Input) : Except String Reply :=
  match o with
  | .failing causes => .error (": ".intercalate causes)
  | .giving r => .ok r
  | .counting => .ok { output := .int number }
  | .echoing => .ok { output := input.toValue }

/-- What a component does at a call of a number. -/
def Behaviour.perform (b : Behaviour) (number : Nat) (input : Input) : Performance :=
  { pauses := b.pauses, cancels := b.cancels, reply := b.outcome.reply number input }

/-- The behaviour at a call of a number; the last one stays in force. -/
def behaviourAt (behaviours : List Behaviour) (number : Nat) : Behaviour :=
  (behaviours[number - 1]?).getD (behaviours.getLast?.getD {})

/-- What a component of a rehearsal does at a call of a number. -/
def Rehearsed.perform (e : Environment) (number : Nat) (c : Rehearsed) (input : Input)
    (t : Files) : Performance :=
  match c with
  | .builtin b => b.perform e input t
  | .told behaviours => (behaviourAt behaviours number).perform number input

end Stepflow
