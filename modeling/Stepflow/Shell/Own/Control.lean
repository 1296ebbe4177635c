import Stepflow.Shell.Own.Places

/-!
# Commands that end something, and commands on signals
-/

namespace Stepflow.Shell.Own

/-- The number with which to end: that of an argument, or the last one. -/
def endStatus (arguments : List String) : Act Nat := do
  match arguments with
  | a :: _ => number a
  | [] =>
    let s ← Act.session
    return s.saved.getD s.status

/-- Ends the shell. -/
def exitCommand (arguments : List String) : Act Nat := do
  let n ← endStatus arguments
  Act.change fun s => { s with status := n, saved := s.saved.map fun _ => n }
  throw .ended

/-- Ends the function. -/
def returnCommand (arguments : List String) : Act Nat := do
  Act.setStatus (← endStatus arguments)
  throw .returned

/-- Ends loops, or a round of one: as many as the argument says, and no more than there are. -/
def endLoops (stop : Nat → Stop) (arguments : List String) : Act Nat := do
  let n ← match arguments with
    | [] => pure 1
    | a :: _ =>
      let n ← number a
      if n = 0 then Act.raise ("Illegal number: " ++ a) else pure n
  let n := min n (← Act.session).loops
  Act.setStatus 0
  if n > 0 then throw (stop n)
  return 0

/-! ### Signals -/

/-- Shows what is done when signals arrive. -/
def showTraps : Act Nat := do
  for signal in List.range Signal.bound do
    if let some t := (← Act.session).traps.find? fun t => t.signal = signal then
      Act.say ("trap -- " ++ singleQuoted t.text ++ " " ++ Signal.word signal ++ "\n")
  return 0

/-- Says what is done when a signal arrives; nothing stands for what is usual. -/
def setTrap (signal : Nat) (text : Option String) : Act Unit := do
  Act.change fun s =>
    let others := s.traps.filter fun t => t.signal ≠ signal
    { s with traps := match text with
      | some text => { signal, text } :: others
      | none => others }
  modify fun m => if m.session.level = 0 then { m with mainTraps := m.session.traps } else m

/-- Says what is done when each of some signals arrives. -/
def setTraps (text : Option String) : List String → Act Nat
  | [] => return 0
  | w :: rest => do
    match Signal.ofWord? w with
    | none =>
      Act.putError ("trap: " ++ w ++ ": bad trap\n")
      return 1
    | some signal =>
      setTrap signal (if text = some "-" then none else text)
      setTraps text rest

/-- Says what is done when signals arrive, or shows it. -/
def trapCommand (arguments : List String) : Act Nat := do
  match ← noOptions arguments with
  | [] => showTraps
  | [w] => setTraps none [w]
  | w :: rest =>
    if w.toList.all Char.isDigit && (Signal.ofWord? w).isSome then setTraps none (w :: rest)
    else setTraps (some w) rest

/-- The signal that a word stands for that is sent to a process. -/
def signalOf? (w : String) : Option Nat :=
  (Signal.ofWord? w).filter fun n => n ≠ 0 || w.toList.all Char.isDigit

/-- How the command that sends signals is used. -/
def killUsage : String :=
  "Usage: kill [-s sigspec | -signum | -sigspec] [pid | job]... or\nkill -l [exitstatus]"

/-- Lets a signal arrive at the shell that `$` stands for. -/
def arrive (signal : Nat) : Act Unit := do
  let m ← get
  match m.mainTraps.find? fun t => t.signal = signal with
  | some t =>
    if t.text ≠ "" && signal ≠ 9 then modify fun m => { m with arrived := m.arrived ++ [signal] }
    else if signal = 9 then throw (.killed m.session.main signal)
  | none =>
    if signal ≠ 0 && !Signal.ignored.contains signal && !Signal.halting.contains signal then
      throw (.killed m.session.main signal)

/-- Sends a signal to a job; says whether there was one. -/
def sendToJob (signal : Nat) (process : Nat) : Act Bool := do
  let m ← get
  match m.jobs.find? fun j => j.process = process && j.ending.isNone with
  | none => return false
  | some _ =>
    let ends := signal ≠ 0 && !Signal.ignored.contains signal && !Signal.halting.contains signal
    let kill (j : Job) : Job :=
      if j.process = process && ends then { j with ending := some (.killed signal) } else j
    set { m with jobs := m.jobs.map kill }
    return true

/-- The job that a word stands for: one by its number, or the last one. -/
def jobOf (w : String) : Act Job := do
  let jobs := (← get).jobs
  let found := match w.toList.tail with
    | [] | ['%'] | ['+'] => jobs.getLast?
    | cs => (String.ofList cs).toNat?.bind fun n => if n = 0 then none else jobs[n - 1]?
  match found with
  | some j => return j
  | none => Act.raise ("No such job: " ++ w)

/-- Sends a signal to a process; says whether there was one. -/
def send (signal : Nat) (target : String) : Act Bool := do
  match target.toList with
  | '%' :: _ => sendToJob signal (← jobOf target).process
  | '-' :: rest =>
    let _ ← number (String.ofList rest)
    return false
  | _ =>
    let n ← number target
    if n = (← Act.session).main then
      arrive signal
      return true
    sendToJob signal n

/-- Sends a signal to processes. -/
def sendAll (signal : Nat) (targets : List String) : Act Nat := do
  let mut status := 0
  for target in targets do
    if !(← send signal target) then
      Act.complain "No such process"
      status := 1
  return status

/-- Shows the signals, or the one that a number stands for. -/
def showSignals (arguments : List String) : Act Nat := do
  match arguments with
  | [] =>
    Act.say "0\n"
    for n in (List.range Signal.bound).tail do Act.say (Signal.word n ++ "\n")
    return 0
  | a :: _ =>
    let n ← number a
    let n := if n > Exit.signalBase then n - Exit.signalBase else n
    if n = 0 || n ≥ Signal.bound then
      Act.raise ("invalid signal number or exit status: " ++ a)
    Act.say (Signal.word n ++ "\n")
    return 0

/-- Sends a signal to processes, or shows the signals. -/
def killCommand (arguments : List String) : Act Nat := do
  let named := match arguments with
    | a :: rest =>
      match a.toList with
      | '-' :: cs => (signalOf? (String.ofList cs)).map fun n => (n, rest)
      | _ => none
    | [] => none
  match named with
  | some (signal, targets) =>
    if targets.isEmpty then Act.raise killUsage
    sendAll signal targets
  | none =>
    let (options, targets) ← takeOptions [('l', false), ('s', true)] arguments
    if options.any fun o => o.1 = 'l' then showSignals targets
    else
      let signals ← options.mapM fun o => do
        let w := o.2.getD ""
        match signalOf? w with
        | some n => pure n
        | none => Act.raise ("invalid signal number or name: " ++ w)
      if targets.isEmpty then Act.raise killUsage
      sendAll (signals.getLast?.getD Signal.terminate) targets

/-! ### Other commands -/

/-- Shows how much time was used: none that could be told. -/
def timesCommand (_ : List String) : Act Nat := do
  Act.say "0m0.00s 0m0.00s\n0m0.00s 0m0.00s\n"
  return 0

/-- The letters for limits that there are. -/
def limitLetters : List Char :=
  ['H', 'S', 'a', 't', 'f', 'd', 's', 'c', 'm', 'l', 'p', 'n', 'v', 'w', 'r']

/-- Shows a limit. -/
def ulimitCommand (arguments : List String) : Act Nat := do
  let (options, rest) ← takeOptions (plain limitLetters) arguments
  let what := ((options.map Prod.fst).filter fun c => c ≠ 'H' && c ≠ 'S').getLast?
  if rest.isEmpty then
    Act.say (match what with
      | some 'c' => "0\n"
      | some 'n' => "1048576\n"
      | _ => "unlimited\n")
  return 0

/-- How a job stands. -/
def jobState (j : Job) : String :=
  match j.ending with
  | none => "Running"
  | some (.exited 0) => "Done"
  | some (.exited n) => "Done(" ++ toString n ++ ")"
  | some (.killed signal) => Signal.wording signal

/-- The column in which the command of a job is shown, which only a shell with a terminal knows. -/
def jobColumn : Nat := 33

/-- Shows the processes that are not waited for, and forgets those that ended. -/
def jobsCommand (arguments : List String) : Act Nat := do
  let (options, _) ← takeOptions (plain ['l', 'p']) arguments
  let jobs := (← get).jobs
  for (k, j) in (List.range jobs.length).zip jobs do
    if options.any fun o => o.1 = 'p' then Act.say (toString j.process ++ "\n")
    else
      let mark := if k + 1 = jobs.length then "+" else if k + 2 = jobs.length then "-" else " "
      let process := if options.isEmpty then "" else toString j.process ++ " "
      let shown := "[" ++ toString (k + 1) ++ "] " ++ mark ++ " " ++ process ++ jobState j
      Act.say (shown ++ String.ofList (List.replicate (jobColumn - shown.length) ' ') ++ "\n")
  modify fun m => { m with jobs := m.jobs.filter fun j => j.ending.isNone }
  return 0

/-- Goes on with a job, which only a shell with a terminal can do. -/
def resumeCommand (arguments : List String) : Act Nat := do
  match arguments with
  | [] => Act.raise "No current job"
  | a :: _ =>
    let _ ← jobOf a
    Act.raise ("job " ++ a ++ " not created under job control")

end Stepflow.Shell.Own
