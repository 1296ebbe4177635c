/-!
# Scripts

A script is a program that asks its surroundings. It makes a request, goes on with the answer, and in
the end gives a result. In between it may give way to other scripts, or sleep until a deadline; sleep
also ends, early, when all is cancelled. Nothing else happens in a script, so what a run does is
decided by the script and the answers.

`ρ` is the type of requests and `Answer` the type of the answer to each. The surroundings answer in a
monad: `Script.run` follows a script to its end. Every script ends, whatever the answers are.
-/

namespace Stepflow

/-- A program that asks its surroundings and ends with a result. -/
inductive Script (ρ : Type) (Answer : ρ → Type) (α : Type) where
  /-- The end, with the result. -/
  | done (a : α)
  /-- Makes a request and goes on with the answer. -/
  | ask (r : ρ) (next : Answer r → Script ρ Answer α)
  /-- Asks whether a sleep until the deadline is over; if so, the answer says whether it was
  cancelled. -/
  | poll (deadline : Nat) (next : Option Bool → Script ρ Answer α)
  /-- Gives way to other scripts once. -/
  | pause (next : Script ρ Answer α)
  /-- Sleeps until the deadline, or until all is cancelled, which is what the answer says. -/
  | sleep (deadline : Nat) (next : Bool → Script ρ Answer α)

namespace Script

variable {ρ : Type} {Answer : ρ → Type} {α β : Type}

/-- Goes on with the result of a script. -/
def andThen (f : α → Script ρ Answer β) : Script ρ Answer α → Script ρ Answer β
  | .done a => f a
  | .ask r next => .ask r fun x => (next x).andThen f
  | .poll deadline next => .poll deadline fun x => (next x).andThen f
  | .pause next => .pause (next.andThen f)
  | .sleep deadline next => .sleep deadline fun x => (next x).andThen f

instance : Monad (Script ρ Answer) where
  pure := .done
  bind s f := s.andThen f

/-- Makes a request, and gives the answer. -/
def request (r : ρ) : Script ρ Answer (Answer r) := .ask r .done

/-- Gives way a number of times. -/
def pauses : Nat → Script ρ Answer Unit
  | 0 => .done ()
  | n + 1 => .pause (pauses n)

/-- Sleeps until a deadline unless it has passed already; gives whether the sleep was cancelled. -/
def sleepUntil (deadline : Nat) : Script ρ Answer Bool :=
  .poll deadline fun
    | some cancelled => .done cancelled
    | none => .sleep deadline .done

/-- A value alone is a script that is done. -/
@[simp] theorem pure_eq (a : α) : (pure a : Script ρ Answer α) = .done a := rfl

/-- Sequencing scripts is `andThen`. -/
@[simp] theorem bind_eq (s : Script ρ Answer α) (f : α → Script ρ Answer β) :
    s >>= f = s.andThen f := rfl

/-- Going on to be done changes nothing. -/
theorem andThen_done (s : Script ρ Answer α) : s.andThen .done = s := by
  induction s with
  | done a => rfl
  | ask r next ih => simp only [andThen, ih]
  | poll deadline next ih => simp only [andThen, ih]
  | pause next ih => simp only [andThen, ih]
  | sleep deadline next ih => simp only [andThen, ih]

/-- Scripts in sequence may be grouped either way. -/
theorem andThen_assoc {γ : Type} (s : Script ρ Answer α) (f : α → Script ρ Answer β)
    (g : β → Script ρ Answer γ) : (s.andThen f).andThen g = s.andThen fun a => (f a).andThen g := by
  induction s with
  | done a => rfl
  | ask r next ih => simp only [andThen, ih]
  | poll deadline next ih => simp only [andThen, ih]
  | pause next ih => simp only [andThen, ih]
  | sleep deadline next ih => simp only [andThen, ih]

/-- What answers requests, polls and sleeps. -/
structure Surroundings (ρ : Type) (Answer : ρ → Type) (m : Type → Type) where
  /-- Answers a request. -/
  answer : (r : ρ) → m (Answer r)
  /-- Answers whether a sleep until a deadline is over, and whether it was cancelled. -/
  poll : Nat → m (Option Bool)
  /-- Waits for a deadline when nothing else is left to do, and answers whether all was cancelled. -/
  sleep : Nat → m Bool

/-- **Follows a script to its end.** Giving way has no effect where there is no one else. -/
def run {m : Type → Type} [Monad m] (world : Surroundings ρ Answer m) : Script ρ Answer α → m α
  | .done a => pure a
  | .ask r next => do run world (next (← world.answer r))
  | .poll deadline next => do run world (next (← world.poll deadline))
  | .pause next => run world next
  | .sleep deadline next => do run world (next (← world.sleep deadline))

end Script

end Stepflow

/-!
## Scripts side by side

Scripts that run side by side take turns. In every round each script that has not ended has its turn,
in order, and goes on until it gives way, falls asleep or ends. A script that is asleep when its turn
comes is first asked whether its sleep is over. The whole gives way at the end of a round in which
some script gave way, and is asleep when all that are left are; it then sleeps until the nearest
deadline.

`both` runs two scripts side by side, by recursion on the first and, within a round, on the second.
`all` runs a list of them.
-/

namespace Stepflow.Script

variable {ρ : Type} {Answer : ρ → Type} {α β γ : Type}

/-- Changes the result of a script. -/
def mapResult (f : α → β) (s : Script ρ Answer α) : Script ρ Answer β := s.andThen fun a => .done (f a)

/-- Begins the turn of a script: one that is asleep is asked whether its sleep is over. -/
def atTurn (go : Script ρ Answer β → Script ρ Answer γ) : Script ρ Answer β → Script ρ Answer γ
  | .sleep deadline next =>
    .poll deadline fun
      | some cancelled => go (next cancelled)
      | none => go (.sleep deadline next)
  | .done b => go (.done b)
  | .ask r next => go (.ask r next)
  | .poll deadline next => go (.poll deadline next)
  | .pause next => go (.pause next)

/-- The turn of the second script in a round in which the first has given way. `resume` is what the
next round does with the second script, and `alone` what is left if the second script ends. -/
def whilePaused (resume : Script ρ Answer β → Script ρ Answer γ) (alone : β → Script ρ Answer γ) :
    Script ρ Answer β → Script ρ Answer γ
  | .done b => .pause (alone b)
  | .ask r next => .ask r fun x => whilePaused resume alone (next x)
  | .poll deadline next => .poll deadline fun x => whilePaused resume alone (next x)
  | .pause next => .pause (resume next)
  | .sleep deadline next => .pause (resume (.sleep deadline next))

/-- The turn of the second script in a round in which the first sleeps until `limit`. `wake` is what
the two do once the first is awake, and `alone` what is left if the second script ends. -/
def whileAsleep (limit : Nat) (wake : Bool → Script ρ Answer β → Script ρ Answer γ)
    (alone : β → Script ρ Answer γ) : Script ρ Answer β → Script ρ Answer γ
  | .done b => alone b
  | .ask r next => .ask r fun x => whileAsleep limit wake alone (next x)
  | .poll deadline next => .poll deadline fun x => whileAsleep limit wake alone (next x)
  | .pause next =>
    .pause (.poll limit fun
      | some cancelled => wake cancelled next
      | none => whileAsleep limit wake alone next)
  | .sleep deadline next =>
    .sleep (min limit deadline) fun cancelled =>
      if cancelled || limit ≤ deadline then wake cancelled (.sleep deadline next)
      else whileAsleep limit wake alone (next false)

/-- **Two scripts side by side**, at the turn of the first. -/
def both : Script ρ Answer α → Script ρ Answer β → Script ρ Answer (α × β)
  | .done a, t => atTurn (mapResult (a, ·)) t
  | .ask r next, t => .ask r fun x => both (next x) t
  | .poll deadline next, t => .poll deadline fun x => both (next x) t
  | .pause next, t => atTurn (whilePaused (fun t => both next t) fun b => mapResult (·, b) next) t
  | .sleep deadline next, t =>
    atTurn (whileAsleep deadline (fun cancelled t => both (next cancelled) t)
      fun b => .sleep deadline fun cancelled => mapResult (·, b) (next cancelled)) t

/-- **A list of scripts side by side**, with their results in the order of the list. -/
def all : List (Script ρ Answer α) → Script ρ Answer (List α)
  | [] => .done []
  | s :: rest => mapResult (fun (a, as) => a :: as) (both s (all rest))

/-- When the first script is done, the second goes on alone from its next turn. -/
@[simp] theorem both_done_left (a : α) (t : Script ρ Answer β) :
    both (.done a : Script ρ Answer α) t = atTurn (mapResult (a, ·)) t := by
  rw [both]

/-- The first script asks before the second gets its turn. -/
@[simp] theorem both_ask_left (r : ρ) (next : Answer r → Script ρ Answer α)
    (t : Script ρ Answer β) : both (.ask r next) t = .ask r fun x => both (next x) t := by
  rw [both]

/-- When both scripts give way, a round has ended. -/
@[simp] theorem both_pause_pause (s : Script ρ Answer α) (t : Script ρ Answer β) :
    both (.pause s) (.pause t) = .pause (both s t) := by
  rw [both, atTurn, whilePaused]

end Stepflow.Script
