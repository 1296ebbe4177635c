import Stepflow.Shell.Calls
import Stepflow.Shell.Grammar
import Stepflow.Shell.Machine
import Stepflow.Shell.Search
import Stepflow.Shell.Tables

/-!
# Running commands

A command is run in the machine and gives the number with which it ended. A failure ends the shell if
that was asked for, unless the command is *tested*: something depends on whether it succeeds. The *last*
command of a shell inside another one takes its place, so that the shell ends as the command does.

Everything is first said of an `Evaluator`, a way to run what stands inside a command. `Evaluator.ofDepth`
then gives one for each number of commands that may stand in each other while they run; what goes deeper
is ended, as a process that uses up its stack.
-/

/-!
## Loops

A command of a loop may end the round it stands in, or the loop, or loops around it; what concerns the
loops around is handed on to them.
-/

namespace Stepflow.Shell

/-- What comes of a part of a loop. -/
inductive Round (α : Type) where
  /-- It ran to its end. -/
  | done (a : α)
  /-- It asks for the next round. -/
  | again
  /-- It ends the loop. -/
  | ended

namespace Act

/-- How often a loop may go round. -/
def roundLimit : Nat := 1000000000

/-- Repeats a step until it gives a result. -/
def repeatStep {σ β : Type} (step : σ → Act (β ⊕ σ)) (none : β) : Nat → σ → Act β
  | 0, _ => return none
  | n + 1, s => do
    match ← step s with
    | .inl b => return b
    | .inr s => repeatStep step none n s

/-- Runs a part of a loop. -/
def loopPart {α : Type} (part : Act α) : Act (Round α) := do
  match ← observe part with
  | .ok a => return .done a
  | .error (.broke k) => if k ≤ 1 then return .ended else throw (.broke (k - 1))
  | .error (.continued k) => if k ≤ 1 then return .again else throw (.continued (k - 1))
  | .error stop => throw stop

/-- Runs a loop. -/
def inLoop {α : Type} (loop : Act α) : Act α := do
  change fun s => { s with loops := s.loops + 1 }
  thenAlways loop (change fun s => { s with loops := s.loops - 1 })

end Act

end Stepflow.Shell

namespace Stepflow.Shell

/-- A way to run commands. -/
structure Evaluator where
  /-- Runs a command. -/
  run : Command → (tested last : Bool) → Act Nat
  /-- Runs a process that is not waited for. -/
  runJob : Job → Act Exit
  /-- Runs a program: under a name, with arguments. -/
  start : (program name : String) → List String → Act Exit

namespace Evaluator

open Act

variable (ev : Evaluator)

/-! ### Texts and shells -/

/-- Where the reading of a text of commands stands. -/
structure Place where
  /-- What is still to be read. -/
  rest : List Char
  /-- The number of the line. -/
  line : Nat := 1
  /-- The number with which the last command ended. -/
  status : Nat := 0

/-- Reads the next line of a text of commands and runs it; gives the number with which the last command
ended if nothing is left. -/
def runLine (tested : Bool) (p : Place) : Act (Nat ⊕ Place) := do
  let s ← session
  let start : Reader := { rest := p.rest, line := p.line, documents := s.documents, aliases := s.aliases }
  match Reading.line.run start with
  | .error e =>
    change fun s => { s with line := e.line }
    raise e.message
  | .ok (none, _) => return .inl p.status
  | .ok (some c, r) =>
    change fun s => { s with documents := r.documents }
    let new ← ev.run c tested false
    let status := match c with
      | .nothing => p.status
      | _ => new
    if r.again && r.token = .ending then return .inl status
    return .inr { rest := r.rest, line := r.line, status }

/-- Runs a text of commands, a line after the other. -/
def runText (text : String) (tested : Bool) : Act Nat :=
  repeatStep (ev.runLine tested) 0 roundLimit { rest := text.toList }

/-- Does what is to be done for the signals that arrived. -/
def noticeSignals : Act Unit := do
  let m ← get
  if m.arrived.isEmpty || m.session.process ≠ m.session.main then return
  set { m with arrived := [] }
  for signal in (List.range Signal.bound).filter m.arrived.contains do
    if let some t := (← session).traps.find? fun t => t.signal = signal then
      let s ← session
      change fun s => { s with saved := some (s.saved.getD s.status) }
      let _ ← ev.runText t.text false
      change fun now => { now with status := s.status, saved := s.saved }

/-- Runs the processes that are not waited for. -/
def runJobs : Act Unit := do
  for j in (← get).jobs do
    if j.ending.isNone then
      let _ ← ev.runJob j

/-- Does what was to be done at the end of the shell. -/
def runEndTrap : Act Unit := do
  let s ← session
  if let some t := s.traps.find? fun t => t.signal = 0 then
    change fun s =>
      { s with traps := s.traps.filter fun t => t.signal ≠ 0, saved := some s.status, loops := 0 }
    match ← observe (ev.runText t.text false) with
    | .error (.killed p signal) => throw (.killed p signal)
    | .error .failed => pure ()
    | _ => change fun s => { s with status := s.saved.getD s.status }

/-- Runs a shell to its end, and goes on with the present one. -/
def inShell (s : Session) (body : Act Unit) : Act Exit := do
  let m ← get
  set { m with session := s, jobs := [] }
  let result ← observe body
  let result ← match result with
    | .error (.killed p signal) => pure (.error (.killed p signal))
    | _ =>
      observe do
        ev.runEndTrap
        ev.runJobs
  let status := (← session).status
  modify fun inner => { inner with session := m.session, jobs := m.jobs }
  match result with
  | .error (.killed p signal) =>
    if p = s.process then return .killed signal else throw (.killed p signal)
  | _ => return .ofStatus status

/-- Runs something in a copy of the shell. -/
def inSubshell (body : Act Unit) : Act Exit := do ev.inShell ((← session).child (← newProcess)) body

/-- Gives what a command inside a word writes. -/
def outputOf (c : Command) : Act String := do
  if let .nothing := c then return ""
  let i ← openStream { channel := .pipe "", reads := true, writes := true }
  let e ← ev.inSubshell do
    connect 1 (some i)
    let _ ← ev.run c false true
  tell e
  change fun s => { s with wordStatus := e.status }
  return match (← world).streams[i]? with
    | some { channel := .pipe text, .. } => text
    | _ => ""

/-- Runs a shell as a program. -/
def runShell (arguments : List String) : Act Exit := do
  match Start.ofArguments [] false arguments with
  | .error message =>
    putError ("sh: 0: " ++ message ++ "\n")
    return .exited errorStatus
  | .ok start =>
    let m ← get
    let s := m.session.fresh (← newProcess) start.name start.arguments
    modify fun m => { m with mainTraps := s.traps, arrived := [] }
    let e ← observe (ev.inShell { s with settings := start.settings } do
      match start.script with
      | .text text => let _ ← ev.runText text false
      | .input => let _ ← ev.runText ((← readAll 0).toOption.getD "") false
      | .file path =>
        match ← readPath path with
        | .error (.obstacle .isDirectory) => return
        | .error t =>
          change fun s => { s with line := 0, name := "sh" }
          Connection.cannotOpen .read path t
          setStatus errorStatus
        | .ok text => let _ ← ev.runText text false)
    modify fun now => { now with mainTraps := m.mainTraps, arrived := m.arrived }
    match e with
    | .ok e => return e
    | .error stop => throw stop

/-- Looks for a program and runs it. -/
def launch : Program.Launcher := fun name arguments => do
  match ← Search.program (← Search.path) name with
  | .program program _ => return .ok (← ev.start program name arguments)
  | .nothing t => return .error t
  | _ => return .error (.obstacle .missing)

/-- Runs a program as a process. What is not waited for gets its turn when a program sleeps. -/
def runProgram (program name : String) (arguments : List String) : Act Exit := do
  if program = "sh" then ev.runShell arguments
  else
    if program = "sleep" then ev.runJobs
    asProcess name (Program.body ev.launch program arguments)

/-! ### Commands of the shell that run others -/

/-- The path of a file in the first directory that has it. -/
def fileIn (name : String) : List String → Act (Option String)
  | [] => return none
  | d :: rest => do
    let path := if d = "" then name else d ++ "/" ++ name
    match ← find path with
    | .ok (.file _) => return some path
    | _ => fileIn name rest

/-- Runs the text in a file. -/
def source (arguments : List String) : Act Nat := do
  match ← Own.noOptions arguments with
  | [] => return 0
  | a :: _ =>
    let path ←
      if Search.isPath a then pure a
      else match ← fileIn a (Search.directories (← Search.path)) with
        | some path => pure path
        | none => raise (a ++ ": not found")
    match ← readPath path with
    | .error t =>
      Connection.cannotOpen .read path t
      setStatus errorStatus
      throw .failed
    | .ok text =>
      change fun s => { s with running := some path }
      match ← observe (ev.runText text false) with
      | .error .returned => return (← session).status
      | .error stop => throw stop
      | .ok status => return status

/-- Puts a program in the place of the shell. -/
def replaceShell (arguments : List String) : Act Nat := do
  match ← Own.noOptions arguments with
  | [] => return 0
  | name :: arguments =>
    match ← Search.program (← Search.path) name with
    | .program program _ =>
      let e ← ev.runProgram program name arguments
      change fun s => { s with traps := [], status := e.status }
      match e with
      | .killed signal => throw (.killed (← session).process signal)
      | .exited _ => throw .ended
    | .nothing t =>
      complain (name ++ ": " ++ Search.reason t)
      setStatus (if t.isMissing then 127 else 126)
      throw .ended
    | _ => return 0

/-- The process that a word stands for, if it is one that was started and not waited for. -/
def waitedFor? (target : String) : Act (Option Job) := do
  if target.toList.head? = some '%' then return some (← Own.jobOf target)
  let process ← Own.number target
  return (← get).jobs.find? fun j => j.process = process

/-- Waits for a process; gives the number with which it ended. -/
def waitForOne (j : Job) : Act Nat := do
  let e ← match j.ending with
    | some e => pure e
    | none => ev.runJob j
  tell e
  return e.status

/-- The number of a process that there is not. -/
def unknownStatus : Nat := 127

/-- Waits for processes: for those that are named, or for all. -/
def waitFor (arguments : List String) : Act Nat := do
  match ← Own.noOptions arguments with
  | [] =>
    ev.runJobs
    return 0
  | targets =>
    let mut status := unknownStatus
    for target in targets do
      match ← waitedFor? target with
      | some j => status ← ev.waitForOne j
      | none => status := unknownStatus
    return status

/-- What a command of the shell does. -/
def own (name : String) (arguments : List String) (tested : Bool) : Act Nat :=
  match Own.command? name with
  | some f => f arguments
  | none =>
    match name with
    | "eval" => if arguments.isEmpty then return 0 else ev.runText (" ".intercalate arguments) tested
    | "." => ev.source arguments
    | "exec" => ev.replaceShell arguments
    | "wait" => ev.waitFor arguments
    | _ => return 0

/-- Runs a command of the shell. What it writes is written when it ends. -/
def runOwn (special : Bool) (name : String) (arguments : List String) (tested : Bool) : Act Nat := do
  let before := (← session).running
  change fun s => { s with running := some name }
  let result ← observe (ev.own name arguments tested)
  let written ← flush
  if !written then complain (name ++ ": I/O error")
  change fun s => { s with running := before }
  match result with
  | .ok status => return if written then status else status ||| 1
  | .error .failed => if special then throw .failed else return (← session).status
  | .error stop => throw stop

/-! ### Commands with words -/

/-- How many functions may be running at a time. -/
def callLimit : Nat := 1000

/-- Runs a function. -/
def runFunction (body : Command) (arguments : List String) (tested : Bool) : Act Nat := do
  let s ← session
  if s.calls = callLimit then
    raise ("Maximum function recursion depth (" ++ toString callLimit ++ ") reached")
  change fun s =>
    { s with arguments, optionIndex := 1, lettersTaken := none, loops := 0, calls := s.calls + 1 }
  let result ← observe (ev.run body tested false)
  change fun now =>
    { now with
      arguments := s.arguments
      calls := s.calls
      optionIndex := s.optionIndex
      lettersTaken := s.lettersTaken
      loops := s.loops }
  match result with
  | .ok status => return status
  | .error .returned => return (← session).status
  | .error stop => throw stop

/-- Runs a command whose name was looked up, with its arguments. -/
def runCall (call : Call) (arguments : List String) (tested last : Bool) : Act Nat := do
  match call.found with
  | .own _ => ev.runOwn call.special call.name arguments tested
  | .function body => ev.runFunction body arguments tested
  | .program program _ =>
    let e ← ev.runProgram program call.name arguments
    if let .killed signal := e then
      let s ← session
      if last && s.traps.isEmpty then throw (.killed s.process signal)
    tell e
    return e.status
  | .nothing t =>
    complain (call.name ++ ": " ++ Search.reason t)
    return Call.missingStatus call.name t

/-- Runs a command that has no name: its assignments are for the shell. -/
def runAssignments (assignments : List Word) (redirections : List Redirection) : Act Nat := do
  let errors ← streamIndex? 2
  withStreams do
    if !(← Connection.follow ev.outputOf redirections) then return errorStatus
    let assignments ← assignments.mapM fun w => do
      let (name, value) ← Call.assignmentOf ev.outputOf w
      assign name value
      return (name, value)
    Call.trace errors assignments []
    return (← session).wordStatus

/-- Runs a command whose name was looked up, with its assignments and redirections. -/
def runNamed (call : Call) (assignments : List Word)
    (redirections : List Redirection) (tested last : Bool) : Act Nat := do
  let errors ← streamIndex? 2
  let assigns := call.isOwn && assigningCommands.contains call.name
  let others ← Call.otherFields ev.outputOf assigns call.rest
  let arguments := call.fields.tail ++ others
  let replaces := call.isOwn && call.name = "exec"
  let assignOne (w : Word) : Act (String × String) := do
    let (name, value) ← Call.assignmentOf ev.outputOf w
    if call.special then
      if replaces && !arguments.isEmpty then assignExported name value else assign name value
    else
      hide name
      assignExported name value
    return (name, value)
  let body : Act Nat := do
    if !(← Connection.follow ev.outputOf redirections) then
      setStatus errorStatus
      if call.special then throw .failed
      return errorStatus
    let assignments ← assignments.mapM assignOne
    Call.trace errors assignments (call.passed ++ call.fields ++ others)
    ev.runCall call arguments tested last
  if replaces then
    let streams := (← session).streams
    match ← observe body with
    | .ok status => return status
    | .error stop =>
      change fun s => { s with streams }
      throw stop
  else withStreams (if call.special then body else withHidden body)

/-- Runs a command with words. -/
def runSimple (assignments words : List Word) (redirections : List Redirection) (tested last : Bool) :
    Act Nat := do
  let (fields, rest) ← Call.firstFields ev.outputOf words
  if fields.isEmpty then ev.runAssignments assignments redirections
  else
    let call ← Call.ofFields ev.outputOf fields rest
    ev.runNamed call assignments redirections tested last

/-! ### Compound commands -/

/-- Looks for the program that a command of a pipeline names, so that the shell knows it. -/
def foresee (c : Command) : Act Unit := do
  if let .simple _ _ (w :: _) _ := c then
    if let some name := (Word.text? w).filter fun name => Name.isName name.toList then
      let _ ← Search.command name true false

/-- Runs the commands of a pipeline, each of which reads from the one before. -/
def runStages (tested : Bool) : (input : Option Nat) → List Command → Act Exit
  | _, [] => return .exited 0
  | input, [c] => do
    foresee c
    let e ← ev.inSubshell do
      if input.isSome then connect 0 input
      let _ ← ev.run c tested true
    tell e
    return e
  | input, c :: rest => do
    foresee c
    let i ← openStream
      { channel := .pipe "", reads := true, writes := true, room := some pipeRoom }
    let e ← ev.inSubshell do
      if input.isSome then connect 0 input
      connect 1 (some i)
      let _ ← ev.run c tested true
    tell e
    runStages tested (some i) rest

/-- Lets a command run in the background. -/
def startJob (c : Command) : Act Nat := do
  let process ← newProcess
  let i ← openStream { channel := .nowhere, reads := true }
  let s := (← session).child process
  let s := { s with streams := (0, i) :: s.streams.filter fun e => e.1 ≠ 0 }
  modify fun m =>
    { m with jobs := m.jobs ++ [{ process, session := s, command := c }]
             session := { m.session with lastJob := some process } }
  return 0

/-- Runs a command in a shell of its own. -/
def runSubshell (c : Command) (redirections : List Redirection) (tested : Bool) : Act Nat := do
  let connections ← redirections.mapM (Connection.ofRedirection ev.outputOf)
  let e ← ev.inSubshell do
    if ← Connection.makeAll connections then
      let _ ← ev.run c tested true
    else setStatus errorStatus
  tell e
  return e.status

/-- Runs a command with redirections. -/
def runRedirected (c : Command) (redirections : List Redirection) (tested : Bool) : Act Nat :=
  withStreams do
    if ← Connection.follow ev.outputOf redirections then ev.run c tested false else return errorStatus

/-- Runs the body of a loop; `none` is the end of the loop. The loop ends with the number that the body
ended with last. -/
def runBody (body : Command) (tested : Bool) : Act (Nat × Bool) := do
  let round ← loopPart (ev.run body tested false)
  return ((← session).status, round matches .ended)

/-- Runs a command as long as another one succeeds, or fails. -/
def runLoop (whileSuccess : Bool) (test body : Command) (tested : Bool) : Act Nat :=
  let step (status : Nat) : Act (Nat ⊕ Nat) := do
    match ← loopPart (ev.run test true false) with
    | .ended => return .inl status
    | .again => return .inr status
    | .done found =>
      if (found = 0) ≠ whileSuccess then return .inl status
      let (status, ended) ← ev.runBody body tested
      return if ended then .inl status else .inr status
  inLoop (repeatStep step 0 roundLimit 0)

/-- Runs a command for each of some fields. -/
def runForEach (name : String) (body : Command) (tested : Bool) (status : Nat) : List String → Act Nat
  | [] => return status
  | f :: rest => do
    assign name f
    let (status, ended) ← ev.runBody body tested
    if ended then return status
    runForEach name body tested status rest

/-- Runs a command for each of the fields that words stand for. -/
def runEach (name : String) (words : List Word) (body : Command) (tested : Bool) : Act Nat := do
  let fields ← words.mapM (Expansion.fields ev.outputOf)
  inLoop (ev.runForEach name body tested 0 fields.flatten)

/-- Whether a text fits one of some patterns. -/
def fitsAny (text : List Char) : List Word → Act Bool
  | [] => return false
  | w :: rest => do
    if fitsPattern (← Expansion.pattern ev.outputOf w) text then return true
    fitsAny text rest

/-- The command of the first arm that fits a text. -/
def fitting (text : List Char) : List Arm → Act Command
  | [] => return .nothing
  | .mk patterns body :: rest => do
    if ← ev.fitsAny text patterns then return body else fitting text rest

/-- Runs the command of the first arm that fits a word. -/
def runCases (word : Word) (arms : List Arm) (tested last : Bool) : Act Nat := do
  let text ← Expansion.text ev.outputOf word
  match ← ev.fitting text.toList arms with
  | .nothing => return 0
  | c => ev.run c tested last

/-! ### Commands -/

/-- Notes the number with which a command ended. -/
def finish (status : Nat) : Act Nat := do
  setStatus status
  ev.noticeSignals
  return (← session).status

/-- Notes the number with which a command ended; a failure may end the shell. -/
def finishChecked (tested : Bool) (status : Nat) : Act Nat := do
  let result ← ev.finish status
  if status ≠ 0 && !tested && (← isOn 'e') then throw .ended
  return result

/-- Notes the line of a command. -/
def atLine (line : Nat) : Act Unit := change fun s => { s with line }

/-- Runs a command, given a way to run what stands in it. -/
def runCommand (c : Command) (tested last : Bool) : Act Nat := do
  if ← isOn 'n' then return (← session).status
  ev.noticeSignals
  match c with
  | .nothing => return (← session).status
  | .simple line assignments words redirections =>
    change fun s => { s with line, wordStatus := 0 }
    ev.finishChecked tested (← ev.runSimple assignments words redirections tested last)
  | .pipeline stages => ev.finishChecked tested (← ev.runStages tested none stages).status
  | .background c => ev.finishChecked tested (← startJob c)
  | .subshell line c redirections =>
    atLine line
    ev.finishChecked tested (← ev.runSubshell c redirections tested)
  | .negation c => ev.finish (if (← ev.run c true false) = 0 then 1 else 0)
  | .both a b =>
    let status ← ev.run a true false
    ev.finish (← if status = 0 then ev.run b tested last else pure status)
  | .either a b =>
    let status ← ev.run a true false
    ev.finish (← if status = 0 then pure status else ev.run b tested last)
  | .sequence a b =>
    let _ ← ev.run a tested false
    ev.run b tested last
  | .redirected line c redirections =>
    atLine line
    ev.finish (← ev.runRedirected c redirections tested)
  | .choice test yes no =>
    if (← ev.run test true false) = 0 then ev.finish (← ev.run yes tested last)
    else match no with
      | .nothing => ev.finish 0
      | no => ev.finish (← ev.run no tested last)
  | .loop whileSuccess test body => ev.finish (← ev.runLoop whileSuccess test body tested)
  | .each line name words body =>
    atLine line
    ev.finish (← ev.runEach name words body tested)
  | .cases line word arms =>
    atLine line
    ev.finish (← ev.runCases word arms tested last)
  | .define _ name body =>
    change fun s => { s with functions := putEntry s.functions name body }
    ev.finish 0

/-- Runs a process that is not waited for, given a way to run what stands in it. -/
def finishJob (j : Job) : Act Exit := do
  let e ← ev.inShell j.session do
    let _ ← ev.run j.command false true
  modify fun m => { m with jobs := m.jobs.map fun k =>
    if k.process = j.process then { k with ending := some e } else k }
  return e

/-- The end of a process that uses up its stack. -/
def exhausted {α : Type} : Act α := do throw (.killed (← session).process Signal.segment)

/-- **Running commands**, of which so many may stand in each other while they run. -/
def ofDepth : Nat → Evaluator
  | 0 => { run := fun _ _ _ => exhausted, runJob := fun _ => exhausted, start := fun _ _ _ => exhausted }
  | n + 1 =>
    let inner := ofDepth n
    { run := inner.runCommand, runJob := inner.finishJob, start := inner.runProgram }

end Evaluator

/-!
## Running a text of commands

A shell is started over files with a text of commands. It has nothing to read. What it writes is kept,
and is text for whoever asked, whatever bytes it was.
-/

/-- What comes of running a text of commands. -/
structure Result where
  /-- How the shell ended. -/
  exit : Exit
  /-- What was written to the output. -/
  out : String
  /-- What was written to the errors. -/
  errors : String
  /-- The files after it. -/
  files : Files

/-- How many commands may stand in each other while they run. -/
def depthLimit : Nat := 20000

/-- The number that a shell gets as a process. -/
def firstProcess : Nat := 1000

/-- A shell in an environment. -/
def Session.inEnvironment (e : Environment) : Session :=
  let found (name : String) : Option String := (e.valueOf (Octets.toText name)).map Octets.ofText
  let directory := Octets.ofText e.directory
  { found, directory
    place := e.place
    main := firstProcess
    process := firstProcess
    streams := [(0, 0), (1, 1), (2, 2)]
    ownVariables := Session.initialVariables found directory }

/-- The streams of a shell that has nothing to read. -/
def firstStreams : Array Stream :=
  #[{ channel := .nowhere, reads := true }, { channel := .output, writes := true },
    { channel := .errors, writes := true }]

/-- **Runs a text** of the command language over files. -/
def run (e : Environment) (files : Files) (text : String) : Result :=
  let ev := Evaluator.ofDepth depthLimit
  let session := Session.inEnvironment e
  let start : Machine := { session, world := { files, streams := firstStreams, last := firstProcess } }
  let body : Act Unit := do let _ ← ev.runText (Octets.ofText text) false
  let (result, finish) := (ev.inShell session body).run start
  { exit := match result with
      | .ok e => e
      | .error _ => .exited Act.errorStatus
    out := Octets.toText finish.world.output
    errors := Octets.toText finish.world.errors
    files := finish.world.files }

end Stepflow.Shell
