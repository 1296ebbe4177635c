import Stepflow.Proofs.Replay
import Stepflow.Proofs.Run.Gist
import Stepflow.Proofs.Run.Steadiness

/-!
# Resuming a run continues it

Of a plain workflow a replay finds the very place where the run stood when it saved the checkpoint:
the steps taken have left what their results record. What is left to do from a place does not depend
on how the run came there, nor on the time. So a run that is resumed goes on as the other would have
gone on, for as long as it is answered alike.
-/

namespace Stepflow

open Script

variable {κ : Type} {r : Runner κ} {w : Workflow} {id : String} {inputs given : Fields}
  {p : Place} {t : Trace κ} {cs : List Completion} {e : Effects}
  {s' : RunScript κ (Except Refusal Execution)} {c : Checkpoint} {places : Nat → Nat → Prop}
  {h k : History (Inquiry κ) Inquiry.Answer} {x : Except Refusal Execution}

/-! ## Calls of components -/

/-- The call that a request begins: where the name is looked up, the name, the component, and what it
is given. -/
def Request.call? : Request κ → Option (Namespace × String × κ × Input)
  | .begin space name component input => some (space, name, component, input)
  | _ => none

theorem Request.call?_gist (q : Request κ) : q.gist.call? = q.call? := by
  cases q <;> rfl

namespace Script

/-- The call that begins at a turn. -/
def Turn.call? : Turn (Inquiry κ) Inquiry.Answer → Option (Namespace × String × κ × Input)
  | .asked e => e.request.request.call?
  | .polled .. | .slept .. => none

/-- The calls of components in a history, in order. -/
def calls (h : History (Inquiry κ) Inquiry.Answer) : List (Namespace × String × κ × Input) :=
  h.filterMap Turn.call?

theorem Turn.Alike.call?_eq {ho : SameOrder places} {a b : Turn (Inquiry κ) Inquiry.Answer}
    (h : a.Alike (Inquiry.likeness ho) b) : a.call? = b.call? := by
  cases a <;> cases b <;> first | contradiction | rfl | skip
  rename_i e e'
  have hgist : e.request.gist = e'.request.gist := h
  rw [Turn.call?, Turn.call?, ← Request.call?_gist, (Inquiry.mk.inj hgist).2.2, Request.call?_gist]

/-- Histories that ask for the same call the same components with the same arguments. -/
theorem calls_eq {ho : SameOrder places} {h k : History (Inquiry κ) Inquiry.Answer}
    (hk : List.Forall₂ (Turn.Alike (Inquiry.likeness ho)) h k) : calls h = calls k := by
  induction hk with
  | nil => rfl
  | cons hab _ ih =>
    rw [calls] at ih
    rw [calls, calls, List.filterMap_cons, List.filterMap_cons, hab.call?_eq, ih]
    rfl

end Script

namespace Runner

/-! ## The place -/

/-- **Of a plain workflow a replay finds the place** where the run saved the checkpoint. -/
theorem Saves.replay_place (h : r.Saves w id given t s' c p cs e) (hp : w.Plain) :
    Place.replay 0 w.steps c.steps (r.start given) = .ok p := by
  -- what a plain step leaves is what its result records, so the effects of the way are those replayed
  have hrecords : ∀ s ∈ w.steps, ∀ c,
      s.Records (r.step (r.execute r.levels) c (.root w.name id true) s) := fun s hs c =>
    step_records (fun j hj => hp.steps j (List.mem_flatMap.2 ⟨s, hs, hj⟩)) (hp.selfContained.distinct hs) c _
  have hcontext := h.along.context
  have hresults : p.results = c.steps := h.along.results
  have howed : p.owed = e.compensations := h.along.owed
  rw [h.replay_eq, ← h.exact hrecords, ← hcontext, ← hresults, ← howed]

/-! ## What is left -/

/-- **The run that goes on** after it saved the checkpoint. -/
theorem Saves.goOn (hs : r.Saves w id given t s' c p cs e) {told : Turn (Inquiry κ) Inquiry.Answer}
    (u : s'.Unfolds (.asked ⟨{ request := .save id c }, .ok ()⟩ :: told :: k) x) :
    ∃ began, (r.goOn (r.execute r.levels) w given (.root w.name id true) began
      (w.steps.drop c.steps.length) p).Unfolds k x := by
  obtain ⟨began, s, rfl⟩ := hs.left
  obtain ⟨_, -, u₁⟩ := u.of_asked.of_ask
  exact ⟨began, u₁⟩

/-- **A run that is resumed** reads the newest checkpoint; one of this workflow and of these inputs is
not refused, and the run starts, and goes on from the place that a replay finds. -/
theorem resume_eq (id : String) {q : Place} (hstore : r.hasStore = true)
    (hgiven : w.resolveInputs inputs = .ok given)
    (hsteps : w.steps.isEmpty = false) (hname : c.workflow = w.name)
    (hhash : c.inputsHash = inputsHash given)
    (hreplay : Place.replay 0 w.steps c.steps (r.start given) = .ok q) :
    ∃ next, r.resume w id inputs = .ask { request := .latest id } next ∧
      next (.ok (some c)) = RunScript.now.andThen fun began =>
        (RunScript.tell (.workflowStarted w.name id w.steps.length c.steps.length)).andThen fun _ =>
          r.goOn (r.execute r.levels) w given (.root w.name id true) began
            (w.steps.drop c.steps.length) q := by
  have hrecorded : recordedIn w id given (.ok (some c)) = .ok c.steps := by
    rw [recordedIn, if_neg (not_not.2 hname), if_neg (not_not.2 hhash)]
  unfold Runner.resume
  rw [hstore, hgiven]
  refine ⟨_, rfl, ?_⟩
  rw [andThen, hrecorded]
  dsimp only
  rw [executeFrom_eq, if_neg (Bool.not_eq_true _ ▸ hsteps), hreplay]
  rfl

theorem Saves.resume_eq (hs : r.Saves w id given t s' c p cs e)
    (hgiven : w.resolveInputs inputs = .ok given)
    {q : Place} (hreplay : Place.replay 0 w.steps c.steps (r.start given) = .ok q) :
    ∃ next, r.resume w id inputs = .ask { request := .latest id } next ∧
      next (.ok (some c)) = RunScript.now.andThen fun began =>
        (RunScript.tell (.workflowStarted w.name id w.steps.length c.steps.length)).andThen fun _ =>
          r.goOn (r.execute r.levels) w given (.root w.name id true) began
            (w.steps.drop c.steps.length) q :=
  Runner.resume_eq id hs.hasStore hgiven hs.hasSteps (by rw [hs.checkpoint]; rfl)
    (by rw [hs.checkpoint]; rfl) hreplay

theorem Saves.resume (hs : r.Saves w id given t s' c p cs e)
    (hgiven : w.resolveInputs inputs = .ok given)
    (hreplay : Place.replay 0 w.steps c.steps (r.start given) = .ok p)
    {read started : Turn (Inquiry κ) Inquiry.Answer}
    (u : (r.resume w id inputs).Unfolds
      (.asked ⟨{ request := .latest id }, .ok (some c)⟩ :: read :: started :: k) x) :
    ∃ began, (r.goOn (r.execute r.levels) w given (.root w.name id true) began
      (w.steps.drop c.steps.length) p).Unfolds k x := by
  obtain ⟨next, hresume, hnext⟩ := hs.resume_eq hgiven hreplay
  rw [hresume] at u
  have u₁ := u.of_asked
  rw [hnext] at u₁
  obtain ⟨began, -, u₂⟩ := u₁.of_ask
  obtain ⟨_, -, u₃⟩ := u₂.of_ask
  exact ⟨began, u₃⟩

/-- And whatever the run may do that goes on, the one that is resumed may do. -/
theorem Saves.resume_of_goOn (hs : r.Saves w id given t s' c p cs e)
    (hgiven : w.resolveInputs inputs = .ok given)
    (hreplay : Place.replay 0 w.steps c.steps (r.start given) = .ok p) {began : Nat}
    (u : (r.goOn (r.execute r.levels) w given (.root w.name id true) began
      (w.steps.drop c.steps.length) p).Unfolds k x) :
    ∃ read started, (r.resume w id inputs).Unfolds
      (.asked ⟨{ request := .latest id }, .ok (some c)⟩ :: read :: started :: k) x := by
  obtain ⟨next, hresume, hnext⟩ := hs.resume_eq hgiven hreplay
  let started : Event := .workflowStarted w.name id w.steps.length c.steps.length
  refine ⟨.asked ⟨{ request := .now }, began⟩, .asked ⟨{ request := .tell started }, ()⟩, ?_⟩
  rw [hresume]
  refine .ask _ ?_
  rw [hnext]
  exact unfolds_ask.2 ⟨began, _, unfolds_ask.2 ⟨(), _, u, rfl⟩, rfl⟩

/-- **Resuming a run of a plain workflow continues it.** At every checkpoint that a run asks for, a
replay finds the place where the run stands: its context, its results, and what it owes, in order. And
let the run go on after the checkpoint was saved, and be resumed from the checkpoint. If both are
answered alike for as long as they ask for the same, and the deadlines that they wait for come in the
same order, then they ask for the same throughout: they call the same components with the same
arguments in the same order. Neither is refused, and they come to the same up to times. -/
theorem run_resumes {id : String} {inputs : Fields} (hp : w.Plain)
    (l : (r.run w id inputs).Leads h s') (hc : s'.AsksToSave c) :
    ∃ given p cs e, w.resolveInputs inputs = .ok given ∧
      r.Saves w id given (exchanges h) s' c p cs e ∧
      Place.replay 0 w.steps c.steps (r.start given) = .ok p ∧
      ∀ (places : Nat → Nat → Prop) (ho : SameOrder places)
        (saved read started : Turn (Inquiry κ) Inquiry.Answer)
        (k k' : History (Inquiry κ) Inquiry.Answer) (x x' : Except Refusal Execution),
        s'.Unfolds (.asked ⟨{ request := .save id c }, .ok ()⟩ :: saved :: k) x →
        (r.resume w id inputs).Unfolds
          (.asked ⟨{ request := .latest id }, .ok (some c)⟩ :: read :: started :: k') x' →
        AnsweredAlike (Inquiry.likeness ho) k k' →
          List.Forall₂ (Turn.Alike (Inquiry.likeness ho)) k k' ∧ calls k = calls k' ∧
          ∃ y y', x = .ok y ∧ x' = .ok y' ∧ y.gist = y'.gist ∧
            (y.result.Finite → y.result.sameOutcome y'.result = true) := by
  obtain ⟨given, p, cs, e, hgiven, hs⟩ := run_saves l hc
  have hreplay := hs.replay_place hp
  refine ⟨given, p, cs, e, hgiven, hs, hreplay, ?_⟩
  intro places ho saved read started k k' x x' u u' ha
  obtain ⟨began, v⟩ := hs.goOn u
  obtain ⟨began', v'⟩ := hs.resume hgiven hreplay u'
  -- both go on from one place, though they began at different times
  have halike : (r.goOn (r.execute r.levels) w given (.root w.name id true) began
      (w.steps.drop c.steps.length) p).Alike (Inquiry.likeness ho)
      (fun x y => executionGist x = executionGist y)
      (r.goOn (r.execute r.levels) w given (.root w.name id true) began'
        (w.steps.drop c.steps.length) p) :=
    goOn_alike (execute_steady r.levels) began began' _ rfl
  obtain ⟨hturns, hgist⟩ := halike.unfolds v v' ha
  obtain ⟨y, rfl⟩ := goOn_ok v
  obtain ⟨y', rfl⟩ := goOn_ok v'
  have hgist : y.gist = y'.gist := Except.ok.inj hgist
  exact ⟨hturns, calls_eq hturns, y, y', rfl, rfl, hgist, fun hf =>
    RunResult.sameOutcome_of_gist hf (Execution.mk.inj hgist).1⟩

end Runner

namespace Sample

/-- A plain workflow that makes something, saves a checkpoint, and then fails. -/
def remaking : Workflow :=
  { Workflow.empty "main" with
    steps := [{ Step.call "first" "make" with rollback := some "undo", checkpoint := true },
      Step.call "last" "boom"] }

theorem remaking_plain : remaking.Plain where
  steps s hs := by
    have hsteps : remaking.steps.flatMap Step.subtree = remaking.steps := rfl
    rw [hsteps] at hs
    obtain rfl | hs := List.mem_cons.1 hs
    · exact ⟨nofun, nofun, nofun, nofun⟩
    · obtain rfl := List.mem_singleton.1 hs
      exact ⟨nofun, nofun, nofun, nofun⟩
  names := by decide

/-- The run up to its checkpoint. -/
def remade : History (Inquiry String) Inquiry.Answer × RunScript String (Except Refusal Execution) :=
  followTo answers savesNow 0 (owingRunner.run remaking "r" [])

theorem remade_leads : (owingRunner.run remaking "r" []).Leads remade.1 remade.2 :=
  followTo_leads _ _ _ _

/-- The checkpoint that it asks for. -/
def remadeCheckpoint : Checkpoint :=
  { id := "1", workflow := "main", inputsHash := inputsHash [], savedAt := ⟨0, 0⟩
    steps := [{ name := "first", type := .call, status := .passed, output := .str "made", attempts := 1 }] }

theorem remade_saves : remade.2.AsksToSave remadeCheckpoint := ⟨_, _, _, rfl, rfl⟩

/-- The run after it saved the checkpoint. -/
def remadeAfter : History (Inquiry String) Inquiry.Answer := (follow answers 0 remade.2).1.drop 2

/-- What it comes to. -/
def remadeEnd : Execution :=
  { result :=
      { workflow := "main", runId := "r", success := false, cancelled := false, output := .str "made"
        error := some "step 'last' failed: boom failed: boom"
        steps := remadeCheckpoint.steps ++ [{ name := "last", type := .call, status := .failed
                                              error := some "boom failed: boom", attempts := 1 }] }
    compensations := [], state := .failed }

theorem remade_goes_on : ∃ saved, remade.2.Unfolds
    (.asked ⟨{ request := .save "r" remadeCheckpoint }, .ok ()⟩ :: saved :: remadeAfter)
    (.ok remadeEnd) := ⟨_, follow_unfolds answers 0 remade.2⟩

/-- Deadlines at the same time come in the same order. -/
theorem sameOrder_eq : SameOrder (· = ·) where
  le_iff := by
    rintro d _ e _ rfl rfl
    rfl

end Sample

namespace Runner

open Sample

/-- The run that goes on and the one that is resumed call what fails, and then undo what was made
before the checkpoint. -/
theorem run_resumes_remaking : ∃ (saved read started : Turn (Inquiry String) Inquiry.Answer)
    (k : History (Inquiry String) Inquiry.Answer) (y y' : Execution),
    remade.2.Unfolds (.asked ⟨{ request := .save "r" remadeCheckpoint }, .ok ()⟩ :: saved :: remadeAfter)
        (.ok y) ∧
      (owingRunner.resume remaking "r" []).Unfolds
        (.asked ⟨{ request := .latest "r" }, .ok (some remadeCheckpoint)⟩ :: read :: started :: k)
        (.ok y') ∧
      (calls remadeAfter).map (fun c => c.2.1) = ["boom", "undo"] ∧ calls remadeAfter = calls k ∧
      y.result.sameOutcome y'.result = true := by
  obtain ⟨given, p, cs, e, hgiven, hs, hreplay, hresumes⟩ :=
    run_resumes remaking_plain remade_leads remade_saves
  obtain ⟨saved, u⟩ := remade_goes_on
  obtain ⟨began, v⟩ := hs.goOn u
  obtain ⟨read, started, u'⟩ := hs.resume_of_goOn hgiven hreplay v
  obtain ⟨-, hcalls, y, y', hy, hy', -, hsame⟩ := hresumes (· = ·) sameOrder_eq _ _ _ _ _ _ _ u u'
    (answeredAlike_self (fun _ => rfl) _)
  obtain rfl : remadeEnd = y := Except.ok.inj hy
  obtain rfl : remadeEnd = y' := Except.ok.inj hy'
  have hf : remadeEnd.result.Finite :=
    ⟨trivial, ⟨trivial, trivial⟩, ⟨trivial, trivial⟩, trivial⟩
  exact ⟨saved, read, started, _, _, _, u, u', rfl, hcalls, hsame hf⟩

end Runner

end Stepflow
