import Stepflow.Proofs.Run.Snapshot

/-!
# The course of a run

A whole run takes over what is recorded, passes from its first step to where it stops, and concludes.
`Course` says so of a run from recorded results, and every run that is not refused takes such a course
(`executeFrom_course`). What is saved on the way is told by the histories of the one step
(`saving_unfolds`).
-/

namespace Stepflow

open Script

variable {κ : Type} {r : Runner κ} {w : Workflow} {s : Step} {h : History (Inquiry κ) Inquiry.Answer}
  {inputs : Fields}

namespace Runner

/-! ## Checkpoints -/

/-- **What a run does about the checkpoint after a step**: nothing if the step is not marked or there is
no store; else it saves the results so far, and tells so if they are saved. -/
theorem saving_unfolds {scope : Scope} {inputs : Fields} {results : List StepResult}
    {saved : Except CheckpointError Unit}
    (u : (saving w scope inputs s results : RunScript κ _).Unfolds h saved) :
    ((s.checkpoint && scope.persist) = false ∧ h = [] ∧ saved = .ok ()) ∨
      ((s.checkpoint && scope.persist) = true ∧ ∃ id savedAt, h =
        .asked ⟨{ request := .freshId }, id⟩ :: .asked ⟨{ request := .today }, savedAt⟩ ::
        .asked ⟨{ request := .save scope.runId (checkpointOf w inputs id savedAt results) }, saved⟩ ::
          match saved with
          | .ok () =>
            [.asked ⟨{ request := .tell (.checkpointSaved w.name scope.runId s.name id) }, ()⟩]
          | .error _ => []) := by
  unfold saving at u
  split at u
  · rename_i hpersist
    obtain ⟨id, h₁, u₁, rfl⟩ := unfolds_ask.1 u
    obtain ⟨savedAt, h₂, u₂, rfl⟩ := unfolds_ask.1 u₁
    obtain ⟨answer, h₃, u₃, rfl⟩ := unfolds_ask.1 u₂
    refine .inr ⟨hpersist, id, savedAt, ?_⟩
    rcases answer with e | _
    · obtain ⟨rfl, rfl⟩ := unfolds_done.1 u₃
      rfl
    · obtain ⟨_, h₄, u₄, rfl⟩ := unfolds_ask.1 u₃
      obtain ⟨rfl, rfl⟩ := unfolds_done.1 u₄
      rfl
  · rename_i hpersist
    obtain ⟨rfl, rfl⟩ := unfolds_done.1 u
    exact .inl ⟨Bool.eq_false_iff.2 hpersist, rfl, rfl⟩

/-! ## Whole runs -/

/-- What is recorded has the names of the first steps, and is all that a run has before it begins. -/
theorem replay_names {index : Nat} {ss : List Step} {recorded : List StepResult} {p q : Place}
    (hq : Place.replay index ss recorded p = .ok q) :
    recorded.map StepResult.name <+: ss.map Step.name ∧ q.results = p.results ++ recorded := by
  induction recorded generalizing index ss p with
  | nil =>
    rw [Place.replay] at hq
    injection hq with hq
    subst hq
    exact ⟨List.nil_prefix, (List.append_nil _).symm⟩
  | cons result recorded ih =>
    cases ss with
    | nil => contradiction
    | cons s ss =>
      rw [Place.replay] at hq
      split at hq
      · rename_i hname
        obtain ⟨hnames, hresults⟩ := ih hq
        rw [List.map_cons, List.map_cons, hname]
        refine ⟨List.cons_prefix_cons.2 ⟨rfl, hnames⟩, ?_⟩
        rw [hresults]
        simp [Place.afterRecorded]
      · contradiction

/-- **The course of a whole run**: it takes over what is recorded, begins, passes to some place, stops
there, and concludes. -/
inductive Course (r : Runner κ) (execute : Execute κ) (w : Workflow) (inputs : Fields) (scope : Scope)
    (recorded : List StepResult) : History (Inquiry κ) Inquiry.Answer → Execution → Prop
  /-- It begins with the time and the event that it starts. -/
  | intro {p q p' : Place} {rest : List Step} {began : Nat} {ending : Ending} {x : Execution}
      {h₁ h₂ h₃ : History (Inquiry κ) Inquiry.Answer} :
      Place.replay 0 w.steps recorded (r.start inputs) = .ok p →
      Passes (fun c s => r.step execute c scope s) (saving w scope inputs)
        (w.steps.drop recorded.length) p h₁ rest q →
      Stops (fun c s => r.step execute c scope s) (saving w scope inputs) rest q h₂ p' ending →
      (r.conclude w scope began p' ending).Unfolds h₃ x →
      Course r execute w inputs scope recorded
        (begun w scope began recorded.length ++ (h₁ ++ (h₂ ++ h₃))) x

/-- A run that is refused does not start. -/
theorem not_unfolds_refused {refusal : Refusal} {x : Execution} :
    ¬ (Script.done (.error refusal) : RunScript κ (Except Refusal Execution)).Unfolds h (.ok x) := by
  rintro ⟨⟩

/-- What a run is resumed from is what its checkpoint records. -/
theorem recordedIn_eq_ok {id : String} {newest : Except CheckpointError (Option Checkpoint)}
    {recorded : List StepResult} (h : recordedIn w id inputs newest = .ok recorded) :
    ∃ c, newest = .ok (some c) ∧ recorded = c.steps := by
  unfold recordedIn at h
  split at h
  · contradiction
  · contradiction
  · rename_i c
    split at h
    · contradiction
    · split at h
      · contradiction
      · injection h with h
        exact ⟨c, rfl, h.symm⟩

/-- **Every run that is not refused** takes such a course. -/
theorem executeFrom_course {execute : Execute κ} {inputs : Fields} {scope : Scope}
    {recorded : List StepResult} {x : Execution}
    (u : (r.executeFrom execute recorded w inputs scope).Unfolds h (.ok x)) :
    Course r execute w inputs scope recorded h x := by
  rw [executeFrom_eq] at u
  split at u
  · exact absurd u not_unfolds_refused
  · split at u
    · exact absurd u not_unfolds_refused
    · rename_i p hp
      obtain ⟨began, h₁, u₁, rfl⟩ := unfolds_ask.1 u
      obtain ⟨_, h₂, u₂, rfl⟩ := unfolds_ask.1 u₁
      have hgoOn : (r.goOn execute w inputs scope began (w.steps.drop recorded.length) p).Unfolds h₂
          (.ok x) := u₂
      obtain ⟨h₃, h₄, ⟨p', ending⟩, u₃, u₄, rfl⟩ := unfolds_andThen.1 hgoOn
      obtain ⟨h₅, h₆, x', u₅, u₆, rfl⟩ := unfolds_andThen.1 u₄
      obtain ⟨rfl, hx⟩ := unfolds_done.1 u₆
      injection hx with hx
      subst hx
      obtain ⟨h₇, h₈, rest, q, hpasses, hstops, rfl⟩ := steps_unfolds.1 u₃
      rw [List.append_nil, List.append_assoc]
      exact .intro hp hpasses hstops u₅

/-- **A run that is resumed** is refused, and has at most read its newest checkpoint; or it has read one
and is executed from what is recorded there. -/
theorem resume_unfolds {id : String} {y : Except Refusal Execution}
    (u : (r.resume w id inputs).Unfolds h y) :
    ((∃ e, y = .error e) ∧ (h = [] ∨ ∃ newest, h = [.asked (Entry.of (.latest id) newest)])) ∨
      ∃ given c k, h = .asked (Entry.of (.latest id) (.ok (some c))) :: k ∧
        (r.executeFrom (r.execute r.levels) c.steps w given (.root w.name id true)).Unfolds k y := by
  unfold Runner.resume at u
  split at u
  · obtain ⟨rfl, rfl⟩ := unfolds_done.1 u
    exact .inl ⟨⟨_, rfl⟩, .inl rfl⟩
  · split at u
    · obtain ⟨rfl, rfl⟩ := unfolds_done.1 u
      exact .inl ⟨⟨_, rfl⟩, .inl rfl⟩
    · rename_i given _
      obtain ⟨newest, k, u₁, rfl⟩ := unfolds_ask.1 u
      rw [andThen] at u₁
      split at u₁
      · obtain ⟨rfl, rfl⟩ := unfolds_done.1 u₁
        exact .inl ⟨⟨_, rfl⟩, .inr ⟨newest, rfl⟩⟩
      · rename_i recorded hrecorded
        obtain ⟨c, rfl, rfl⟩ := recordedIn_eq_ok hrecorded
        exact .inr ⟨given, c, k, rfl, u₁⟩

/-- **Every run that starts** does so with the inputs that it resolves. -/
theorem run_course {id : String} {x : Execution} (u : (r.run w id inputs).Unfolds h (.ok x)) :
    ∃ given, w.resolveInputs inputs = .ok given ∧
      Course r (r.execute r.levels) w given (.root w.name id r.hasStore) [] h x := by
  unfold Runner.run at u
  split at u
  · exact absurd u not_unfolds_refused
  · rename_i given hgiven
    exact ⟨given, hgiven, executeFrom_course u⟩

end Runner

end Stepflow
