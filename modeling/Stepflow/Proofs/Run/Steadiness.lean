import Stepflow.Proofs.Run.Congruence
import Stepflow.Proofs.Run.Workflow
import Stepflow.Proofs.Script.Likeness

/-!
# Every run is steady

From places of the same gist a run goes on alike, whenever it began: its steps are steady, the
checkpoints that it saves have the same gist, and what it settles in the end is the same. So a run is
decided, up to times and identifiers, by what its requests lead to. By induction on the levels of
nesting this holds of runs inside steps as well.
-/

namespace Stepflow.Congruence

open Script Runner

variable {κ : Type} {C : Congruence κ} {r : Runner κ} {execute : Execute κ} {w : Workflow} {scope : Scope}
  {given : Fields} {p p' : Place}

/-- Checkpoints of results of the same gist are saved alike. -/
theorem saving_alike (hsaves : scope.persist = true → C.Saves) (s : Step)
    {results results' : List StepResult}
    (h : results.map StepResult.gist = results'.map StepResult.gist) :
    C.Alike (· = ·) (saving w scope given s results) (saving w scope given s results') := by
  unfold saving
  split
  · rename_i hpersist
    refine C.andThen (C.request { request := .freshId } { request := .freshId } rfl) fun id id' _ => ?_
    refine C.andThen (C.request { request := .today } { request := .today } rfl) fun at₁ at₂ _ => ?_
    refine C.andThen (C.save (hsaves (Bool.and_eq_true_iff.1 hpersist).2) ?_) fun saved saved' hsaved => ?_
    · show Request.save _ (Checkpoint.mk _ _ _ _ _) = Request.save _ (Checkpoint.mk _ _ _ _ _)
      rw [h]
    · obtain rfl : saved = saved' := hsaved
      split
      · exact C.done rfl
      · exact C.andThen (C.tell rfl) fun _ _ _ => C.done rfl
  · exact C.done rfl

/-- **From step to step** runs go on alike. -/
theorem steps_alike {run : Context → Step → RunScript κ StepOutcome}
    {save : Step → List StepResult → RunScript κ (Except CheckpointError Unit)}
    (hrun : ∀ c s, C.Steady StepOutcome.gist (run c s))
    (hsave : ∀ s results results', results.map StepResult.gist = results'.map StepResult.gist →
      C.Alike (· = ·) (save s results) (save s results'))
    {ss : List Step} (hp : p.gist = p'.gist) :
    C.Alike (fun a b => a.1.gist = b.1.gist ∧ a.2 = b.2) (steps run save ss p) (steps run save ss p') := by
  induction ss generalizing p p' with
  | nil => exact C.done ⟨hp, rfl⟩
  | cons s rest ih =>
    obtain ⟨hcontext, hresults, -⟩ := Place.mk.inj hp
    -- the number of the next step is in its layer
    have hlength : p.results.length = p'.results.length := by
      rw [← List.length_map (f := StepResult.gist), hresults, List.length_map]
    rw [steps, steps, hcontext, hlength]
    refine C.andThen C.isCancelled fun cancelled cancelled' hc => ?_
    obtain rfl : cancelled = cancelled' := hc
    split
    · exact C.done ⟨hp, rfl⟩
    · refine C.andThen ((hrun _ s).under _) fun o o' hoo => ?_
      have hafter : (p.after o).gist = (p'.after o').gist := by
        rw [Place.after_gist, Place.after_gist, hp, hoo]
      have hresult : o.result.gist = o'.result.gist := (StepOutcome.mk.inj hoo).1
      dsimp only
      rw [StepResult.status_of_gist hresult, StepResult.error_of_gist hresult]
      split
      · exact C.done ⟨hafter, rfl⟩
      · exact C.done ⟨hafter, rfl⟩
      · exact ih hafter
      all_goals
        refine C.andThen (hsave s _ _ (Place.mk.inj hafter).2.1) fun saved saved' hsaved => ?_
        obtain rfl : saved = saved' := hsaved
        split
        · exact ih hafter
        · exact C.done ⟨hafter, rfl⟩

theorem rollback_steady (workflow : String) (owed : List Compensation) :
    C.Steady id (r.rollback workflow owed) := by
  induction owed with
  | nil => exact .done _
  | cons c rest ih =>
    exact (Steady.tell _).andThen_eq fun _ =>
      Steady.andThen_eq (Steady.compositional.compensate r c) fun _ =>
        (Steady.tell _).andThen_eq fun _ => ih

theorem clearCheckpoints_steady : C.Steady id (r.clearCheckpoints scope) := by
  unfold clearCheckpoints
  split
  · exact C.andThen (C.request { request := .clear scope.runId } { request := .clear scope.runId } rfl)
      fun _ _ _ => C.done rfl
  · exact .done _

/-- **Runs come to the same end** from places of the same gist, whenever they began. -/
theorem conclude_alike (began began' : Nat) (ending : Ending) (hp : p.gist = p'.gist) :
    C.Alike (fun a b => a.gist = b.gist) (r.conclude w scope began p ending)
      (r.conclude w scope began' p' ending) := by
  obtain ⟨-, hresults, howed⟩ := Place.mk.inj hp
  have hsettle : C.Steady id (r.settle w.name scope p.owed ending) := by
    cases ending with
    | failed error => exact (rollback_steady _ _).andThen_eq fun _ => .done _
    | cancelled => exact .done _
    | finished => exact clearCheckpoints_steady.andThen_eq fun _ => .done _
  have hend : (resultsAtEnd w ending p.results).map StepResult.gist =
      (resultsAtEnd w ending p'.results).map StepResult.gist := by
    rw [resultsAtEnd_gist, hresults, ← resultsAtEnd_gist]
  have houtput : finalOutput (resultsAtEnd w ending p.results) =
      finalOutput (resultsAtEnd w ending p'.results) := by
    rw [← finalOutput_gist, hend, finalOutput_gist]
  unfold conclude
  dsimp only
  rw [← howed]
  refine C.andThen hsettle fun owed owed' h => ?_
  obtain rfl : owed = owed' := h
  refine C.andThen (C.millisecondsSince began began') fun totalMs totalMs' _ => ?_
  refine C.andThen (C.tell rfl) fun _ _ _ => C.done ?_
  show Execution.mk (RunResult.mk _ _ _ _ _ _ _ _) _ _ =
    Execution.mk (RunResult.mk _ _ _ _ _ _ _ _) _ _
  rw [hend, houtput]

/-- **What is left of a run** goes on alike from places of the same gist. -/
theorem goOn_alike (he : C.Nests execute) (hsaves : scope.persist = true → C.Saves) (began began' : Nat)
    (rest : List Step) (hp : p.gist = p'.gist) :
    C.Alike (fun x y => executionGist x = executionGist y)
      (r.goOn execute w given scope began rest p) (r.goOn execute w given scope began' rest p') := by
  refine C.andThen
    (steps_alike (fun c s => step_steady he s c scope) (fun s _ _ => saving_alike hsaves s) hp)
    fun ⟨p, ending⟩ ⟨p', ending'⟩ h => ?_
  obtain ⟨hp, rfl⟩ := h
  exact C.andThen (conclude_alike began began' ending hp) fun x y hxy => C.done (congrArg Except.ok hxy)

/-- A run is steady if the runs inside its steps are. -/
theorem executeFrom_steady (he : C.Nests execute) (hsaves : scope.persist = true → C.Saves)
    (recorded : List StepResult) (w : Workflow) (inputs : Fields) :
    C.Steady executionGist (r.executeFrom execute recorded w inputs scope) := by
  rw [executeFrom_eq]
  split
  · exact .done _
  · split
    · exact .done _
    · exact C.andThen C.now fun began began' _ => C.andThen (C.tell rfl) fun _ _ _ =>
        goOn_alike he hsaves began began' _ rfl

/-- **Every run inside a step is steady**, by induction on the levels of nesting. -/
theorem execute_nests (levels : Nat) : C.Nests (r.execute levels) := by
  induction levels with
  | zero => exact fun _ _ _ _ => .done _
  | succ levels ih =>
    exact fun w inputs scope hpersist => executeFrom_steady ih (by rw [hpersist]; nofun) [] w inputs

end Stepflow.Congruence

/-!
## Runs that go on alike

Two runs ask for the same if their requests have the same gist. They are answered alike if components
give way as often and reply the same, cancellation is seen at the same places, and checkpoints are
saved or not alike; clocks, identifiers and tickets may be any. The deadlines that sleeps wait for need
only come in the same order.

To go on alike when so answered is a congruence of scripts. So what a run does, and what it comes to up to
times, is decided by such answers.
-/

namespace Stepflow

open Script

variable {κ : Type} {α β γ : Type}

/-- Deadlines at the same places come in the same order. -/
structure SameOrder (places : Nat → Nat → Prop) : Prop where
  /-- One is before the other exactly if it is so on the other side. -/
  le_iff : ∀ {d d' e e' : Nat}, places d d' → places e e' → (d ≤ e ↔ d' ≤ e')

/-- Answers that lead on alike. -/
def Request.AnsweredAlike : (q q' : Request κ) → q.Answer → q'.Answer → Prop
  | .isCancelled, .isCancelled, x, x' => x = x'
  | .begin .., .begin .., x, x' => x.pauses = x'.pauses
  | .collect _, .collect _, x, x' => x = x'
  | .save .., .save .., x, x' => x = x'
  | _, _, _, _ => True

/-- **What it is for runs to be alike.** -/
def Inquiry.likeness {places : Nat → Nat → Prop} (ho : SameOrder places) :
    Likeness (Inquiry κ) Inquiry.Answer where
  asks q q' := q.gist = q'.gist
  answers q q' := q.request.AnsweredAlike q'.request
  deadlines := places
  le_iff := ho.le_iff

variable {places : Nat → Nat → Prop} {ho : SameOrder places}

/-- A history is answered like itself, where deadlines keep their places. -/
theorem answeredAlike_self (hd : ∀ d, places d d) (h : History (Inquiry κ) Inquiry.Answer) :
    AnsweredAlike (Inquiry.likeness ho) h h := by
  induction h with
  | nil => trivial
  | cons turn h ih =>
    cases turn with
    | asked e =>
      refine fun _ => ⟨?_, ih⟩
      show e.request.request.AnsweredAlike e.request.request e.answer e.answer
      obtain ⟨⟨site, step, q⟩, answer⟩ := e
      cases q <;> first | rfl | trivial
    | polled deadline x => exact ⟨hd deadline, rfl, ih⟩
    | slept deadline x => exact ⟨rfl, ih⟩

namespace RunScript

theorem alike_under {R : α → β → Prop} {l : Layer} {s : RunScript κ α} {s' : RunScript κ β}
    (h : s.Alike (Inquiry.likeness ho) R s') :
    (s.under l).Alike (Inquiry.likeness ho) R (s'.under l) := by
  induction s generalizing s' with
  | done a => cases s' <;> exact h
  | ask q next ih =>
    cases s' with
    | ask q' next' =>
      refine ⟨?_, fun x x' hx => ih x (h.2 x x' hx)⟩
      have hq : q.gist = q'.gist := h.1
      injection hq with hsite hstep hrequest
      show Inquiry.mk _ _ _ = Inquiry.mk _ _ _
      rw [hsite, hstep, hrequest]
    | _ => exact h.elim
  | poll deadline next ih =>
    cases s' <;> first | exact fun x hd => ih x (h x hd) | exact h.elim
  | pause next ih => cases s' <;> first | exact ih h | exact h.elim
  | sleep deadline next ih =>
    cases s' <;> first | exact ⟨h.1, fun x => ih x (h.2 x)⟩ | exact h.elim

theorem alike_request {q q' : Request κ} (h : q.gist = q'.gist) :
    (request q).Alike (Inquiry.likeness ho) (q.AnsweredAlike q') (request q') :=
  Script.alike_request (congrArg (Inquiry.mk [] none) h)

/-- **A component** that gives way as often and replies the same is the same, whatever its ticket. -/
theorem alike_call (space : Namespace) (name : String) (component : κ) (input : Input) :
    (call space name component input).Alike (Inquiry.likeness ho) (· = ·)
      (call space name component input) := by
  refine Alike.andThen (alike_request rfl) fun (a b : Call) (hab : a.pauses = b.pauses) => ?_
  rw [hab]
  exact (alike_pauses _).andThen fun _ _ _ => alike_request rfl

end RunScript

/-- **To go on alike**, if answered alike, is a congruence. -/
def Inquiry.congruence (ho : SameOrder places) : Congruence κ where
  Alike R s s' := s.Alike (Inquiry.likeness ho) R s'
  Saves := True
  done h := h
  andThen := Script.Alike.andThen
  under := RunScript.alike_under
  request _ _ h := (Script.alike_request h).mono fun _ _ _ => trivial
  isCancelled := RunScript.alike_request rfl
  call := RunScript.alike_call
  sleepUntil := alike_sleepUntil
  all := alike_all
  save _ h := RunScript.alike_request h

namespace Runner

variable {r : Runner κ} {execute : Execute κ}

theorem execute_steady (levels : Nat) : (Inquiry.congruence ho).Nests (r.execute levels) :=
  Congruence.execute_nests levels

/-- **What is left of a run** goes on alike from places of the same gist. -/
theorem goOn_alike (he : (Inquiry.congruence ho).Nests execute) {w : Workflow} {given : Fields}
    {scope : Scope} {p p' : Place} (began began' : Nat) (rest : List Step) (hp : p.gist = p'.gist) :
    (r.goOn execute w given scope began rest p).Alike (Inquiry.likeness ho)
      (fun x y => executionGist x = executionGist y)
      (r.goOn execute w given scope began' rest p') :=
  Congruence.goOn_alike he (fun _ => trivial) began began' rest hp

end Runner

end Stepflow
