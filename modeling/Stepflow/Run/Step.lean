import Stepflow.Expression.Evaluation
import Stepflow.Run.Component
import Stepflow.Run.Effects

/-!
# Running a step

How a branch chooses among its options, a fallback follows its step, and the members of a group run; how
a step is tried again, and a validation fixed first; and what lies around all this.
-/

/-!
## Branches and fallbacks

A branch runs the first option whose condition holds, and no other. A condition that cannot be
evaluated ends the search. A fallback is run if its step failed; it is not if all was cancelled.

`Planned` is a step that is ready to be run.
-/

namespace Stepflow

/-- A step that is ready to be run. -/
structure Planned (κ : Type) where
  /-- The step. -/
  step : Step
  /-- What it does when it is run. -/
  run : RunScript κ StepOutcome

namespace Planned

variable {κ : Type}

/-- The name of the step. -/
def name (p : Planned κ) : String := p.step.name

/-- The step run in a layer of the step around it. -/
def runAs (p : Planned κ) (layer : Layer) : RunScript κ StepOutcome := p.run.under layer

end Planned

namespace StepOutcome

/-- What the step around this one makes of it: its output if the run goes on after it, and else the
error `wrap` for its own. -/
def outcomeWith (o : StepOutcome) (wrap : String → StepError) : Except StepError Value :=
  if o.result.status = .cancelled then .error .cancelled
  else if o.result.success then .ok o.result.output
  else .error (wrap (o.result.error.getD ""))

end StepOutcome

namespace Attempt

/-- What a branch makes of its chosen option. -/
def ofOption (name : String) (o : StepOutcome) : Attempt :=
  { outcome := o.outcomeWith (StepError.option name), children := [o.result], effects := o.effects }

/-- What a step makes of its fallback after the error `e`. -/
def recovered (a : Attempt) (e : StepError) (fallback : String) (o : StepOutcome) : Attempt :=
  { a with
    outcome := o.outcomeWith fun error => .fallback fallback error e.message
    children := a.children ++ [o.result]
    effects := a.effects ++ o.effects }

end Attempt

namespace Runner

variable {κ : Type}

/-- **A branch**: the first option whose condition holds. -/
def branching (c : Context) : List (Expression × Planned κ) → RunScript κ Attempt
  | [] => .done (.failed .noOption)
  | (condition, option) :: rest =>
    match condition.holds c with
    | .error e => .done (.failed (.reference (.unresolved e)))
    | .ok false => branching c rest
    | .ok true => (option.runAs .option).andThen fun o => .done (.ofOption option.name o)

/-- **A fallback**: what a step comes to if the fallback is run where the step failed. -/
def recovering (fallback : Option (Planned κ)) (a : Attempt) : RunScript κ Attempt :=
  match fallback, a.outcome with
  | some f, .error e =>
    if e.isCancelled then .done a
    else (f.runAs .fallback).andThen fun o => .done (a.recovered e f.name o)
  | _, _ => .done a

end Runner

/-!
## Groups

The members of a group run side by side, each to its end, also if others fail. The group fails if a
member does; otherwise it is cancelled if a member is. It produces an object that holds the output of
every member under the name of the member, so no two members may have one name.
-/

/-- The first name that occurs earlier in the list, or among those seen before it. -/
def firstRepeated? : (seen : List String) → List String → Option String
  | _, [] => none
  | seen, n :: rest => if seen.contains n then some n else firstRepeated? (n :: seen) rest

/-- What a group makes of what its members came to. -/
def Attempt.ofMembers (outcomes : List StepOutcome) : Attempt :=
  let results := outcomes.map StepOutcome.result
  let failed := (results.filter fun r => r.status = .failed).map StepResult.name
  { outcome :=
      if !failed.isEmpty then .error (.members failed)
      else if results.any fun r => r.status = .cancelled then .error .cancelled
      else .ok (.obj (Table.ofList (results.map fun r => (r.name, r.output))))
    children := results
    effects := .concat (outcomes.map StepOutcome.effects) }

/-- **A group** of members. -/
def Runner.grouping {κ : Type} (members : List (Planned κ)) : RunScript κ Attempt :=
  match firstRepeated? [] (members.map Planned.name) with
  | some name => .done (.failed (.duplicateName name))
  | none =>
    (Script.all (members.zipIdx.map fun m => m.1.runAs (.member m.2))).andThen fun os =>
      .done (.ofMembers os)

end Stepflow

/-!
## Tries

A step with a retry policy is tried until it succeeds, all is cancelled, or its tries are used up. In
between it waits; a wait that is cancelled ends the step. The effects of all tries add up, and the
results of inner steps are those of the last try.
-/

namespace Stepflow

/-- The nanoseconds in a millisecond. -/
def nanosPerMilli : Nat := 1000000

/-- The first whole millisecond that is not before a time: the time at which waits end. -/
def wholeMilli (nanos : Nat) : Nat := (nanos + (nanosPerMilli - 1)) / nanosPerMilli * nanosPerMilli

namespace RetryPolicy

/-- How many tries a policy allows after the first. -/
def retries (p : RetryPolicy) : Nat := p.maxAttempts - 1

end RetryPolicy

namespace Runner

variable {κ : Type}

/-- Waits after a number of tries; gives whether the wait was cancelled. -/
def wait (r : Runner κ) (p : RetryPolicy) (tries : Nat) : RunScript κ Bool := do
  let jitter : Float ← RunScript.request .jitter
  let now ← RunScript.now
  Script.sleepUntil (wholeMilli (now + min (p.delay tries jitter) r.config.retryCap))

/-- **Trying again**, up to `left` times after the next try. `tries` counts the tries made so far, and
`effects` are theirs; the result is the last try, with the effects of all, and their number. -/
def retrying (wait : Nat → RunScript κ Bool) (attempt : RunScript κ Attempt) :
    (left tries : Nat) → Effects → RunScript κ (Attempt × Nat)
  | 0, tries, effects =>
    (attempt.under (.attempt tries)).andThen fun a =>
      .done ({ a with effects := effects ++ a.effects }, tries + 1)
  | left + 1, tries, effects =>
    (attempt.under (.attempt tries)).andThen fun a =>
      let effects := effects ++ a.effects
      if a.isFailure then
        (wait (tries + 1)).andThen fun cancelled =>
          if cancelled then
            .done ({ outcome := .error .cancelled, children := a.children, effects }, tries + 1)
          else retrying wait attempt left (tries + 1) effects
      else .done ({ a with effects }, tries + 1)

/-- Tries a step as often as its policy says; once, if it has none. -/
def retried (r : Runner κ) (policy : Option RetryPolicy) (attempt : RunScript κ Attempt) :
    RunScript κ (Attempt × Nat) :=
  match policy with
  | none => (attempt.under (.attempt 0)).andThen fun a => .done (a, 1)
  | some p => retrying (r.wait p) attempt p.retries 0 .empty

end Runner

/-!
## Validations

A validation calls its stages. If one does not pass and fixes are left, the fix is run and the stages
are called again, from the first; it does not matter whether the fix succeeded. A validation without
a fix calls its stages again all the same. Once all is cancelled no further fix is made.
-/

/-- What the fixes of a validation have led to so far. -/
structure Fixes where
  /-- How many there were. -/
  count : Nat := 0
  /-- Their results. -/
  children : List StepResult := []
  /-- Their effects. -/
  effects : Effects := .empty

namespace Fixes

/-- One fix more. -/
def after (f : Fixes) (o : StepOutcome) : Fixes :=
  ⟨f.count + 1, f.children ++ [o.result], f.effects ++ o.effects⟩

/-- One fix more, where there is nothing to run. -/
def afterNothing (f : Fixes) : Fixes := { f with count := f.count + 1 }

/-- The validation ends and says how many fixes it made. -/
def concluded (f : Fixes) (outcome : Except StepError Value) : Attempt :=
  { outcome, fixes := f.count, children := f.children, effects := f.effects }

/-- The validation breaks off. -/
def brokenOff (f : Fixes) (e : StepError) : Attempt :=
  { outcome := .error e, children := f.children, effects := f.effects }

end Fixes

/-- What a validation that passed produces. -/
def validationOutput (fixes : Nat) : Value :=
  .obj [("fix_attempts", .int fixes), ("passed", .bool true)]

namespace Runner

variable {κ : Type}

/-- **A validation** with `left` fixes left. -/
def validating (stages : StepScript κ (Option StageFailure))
    (fix : Option (Planned κ)) : (left : Nat) → Fixes → RunScript κ Attempt
  | left, fixes =>
    stages.run.andThen fun
      | .error e => .done (fixes.brokenOff e)
      | .ok none => .done (fixes.concluded (.ok (validationOutput fixes.count)))
      | .ok (some failure) =>
        match left with
        | 0 =>
          .done (fixes.concluded
            (.error (.validation failure.stage failure.reason fixes.count)))
        | left + 1 =>
          RunScript.isCancelled.andThen fun cancelled =>
            if cancelled then .done (fixes.brokenOff .cancelled)
            else match fix with
              | none => validating stages fix left fixes.afterNothing
              | some planned =>
                (planned.runAs (.fix fixes.count)).andThen fun o =>
                  let fixes := fixes.after o
                  if o.result.status = .cancelled then .done (fixes.brokenOff .cancelled)
                  else validating stages fix left fixes

end Runner

end Stepflow

/-!
## Decorations

The decorations of a step lie around what its kind does, in a fixed order. First comes the condition,
then the question whether all is cancelled; the step starts, is tried as often as its policy says, and
if it still fails its fallback is run. What it then came to is turned into its result: an error may be
pardoned, a success leaves its output and its compensation behind.

`Runner.step` follows the steps inside a step by recursion. The context is the same for all of them:
what a step inside produces is seen only by the steps after the outermost one.
-/

namespace Stepflow

namespace Step

/-- Why a step is skipped, if it is: its condition does not hold, or cannot be evaluated, which is
then the reason. -/
def skipReason? (s : Step) (c : Context) : Option (Option String) :=
  match s.condition with
  | none => none
  | some e =>
    match e.holds c with
    | .ok true => none
    | .ok false => some none
    | .error e => some (some e.message)

/-- What a step comes to in the end, from its last try and the number of tries. -/
def conclude (s : Step) (a : Attempt) (tries : Nat) : StepOutcome :=
  let result : StepResult :=
    { name := s.name, type := s.type, status := .passed
      attempts := if s.type = .validate then a.fixes else tries, children := a.children }
  match a.outcome with
  | .ok output =>
    { result := { result with status := if a.fixes = 0 then .passed else .fixed, output }
      effects := a.effects ++ .ofCompleted s output }
  | .error e =>
    if e.isCancelled then { result := { result with status := .cancelled }, effects := a.effects }
    else
      { result := { result with
          status := if s.skipOnError then .skipped else .failed, error := some e.message }
        effects := a.effects }

end Step

namespace Runner

variable {κ : Type}

/-- Ends a step that began at a time: tells its result, with the time that it took. -/
def finish (scope : Scope) (s : Step) (began : Nat) (o : StepOutcome) :
    RunScript κ StepOutcome := do
  let durationMs ← RunScript.millisecondsSince began
  let result := { o.result with durationMs }
  RunScript.tellOf s (.stepCompleted scope.workflow result)
  return { o with result }

/-- **The decorations of a step** around what its kind does. -/
def decorated (r : Runner κ) (c : Context) (scope : Scope) (s : Step)
    (attempt : RunScript κ Attempt) (fallback : Option (Planned κ)) : RunScript κ StepOutcome := do
  let began ← RunScript.now
  match s.skipReason? c with
  | some reason => finish scope s began { result := .skipped s reason }
  | none =>
    if ← RunScript.isCancelled then finish scope s began { result := .cancelled s }
    else
      RunScript.tellOf s (.stepStarted scope.workflow s.name s.type)
      let (a, tries) ← r.retried s.retryPolicy attempt
      let a ← recovering fallback a
      finish scope s began (s.conclude a tries)

/-- What a step that only calls components comes to. -/
def attempting (x : StepScript κ Value) : RunScript κ Attempt :=
  x.run.andThen fun outcome => .done { outcome }

mutual

/-- **Runs a step**, with `execute` for the workflows that steps run. -/
def step (r : Runner κ) (execute : Execute κ) (c : Context) (scope : Scope) :
    Step → RunScript κ StepOutcome
  | ⟨name, kind, condition, retryPolicy, onError, skipOnError, rollback, checkpoint⟩ =>
    r.decorated c scope
      ⟨name, kind, condition, retryPolicy, onError, skipOnError, rollback, checkpoint⟩
      (kindOf r execute c scope name kind) (fallbackOf r execute c scope onError)

/-- One try of what a step of a name does. -/
def kindOf (r : Runner κ) (execute : Execute κ) (c : Context) (scope : Scope) (name : String) :
    StepKind Step → RunScript κ Attempt
  | .call action args kwargs => attempting (r.callAction c action args kwargs)
  | .agent agent inline builder => attempting (r.runAgent c agent inline builder)
  | .generate generator inline builder => attempting (r.runGenerator c generator inline builder)
  | .validate stages retry fix =>
    validating (r.runStages stages) (fallbackOf r execute c scope fix) retry {}
  | .subworkflow workflow inputs => r.runNested execute c scope name workflow inputs
  | .branch options => branching c (optionsOf r execute c scope options)
  | .parallel members => grouping (membersOf r execute c scope members)

/-- A step that may be missing, ready to be run. -/
def fallbackOf (r : Runner κ) (execute : Execute κ) (c : Context) (scope : Scope) :
    Option Step → Option (Planned κ)
  | none => none
  | some s => some ⟨s, step r execute c scope s⟩

/-- The options of a branch, ready to be run. -/
def optionsOf (r : Runner κ) (execute : Execute κ) (c : Context) (scope : Scope) :
    List (BranchOption Step) → List (Expression × Planned κ)
  | [] => []
  | ⟨condition, s⟩ :: rest =>
    (condition, ⟨s, step r execute c scope s⟩) :: optionsOf r execute c scope rest

/-- The members of a group, ready to be run. -/
def membersOf (r : Runner κ) (execute : Execute κ) (c : Context) (scope : Scope) :
    List Step → List (Planned κ)
  | [] => []
  | s :: rest => ⟨s, step r execute c scope s⟩ :: membersOf r execute c scope rest

end

end Runner

end Stepflow
