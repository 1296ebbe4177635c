import Stepflow.Proofs.Decorations
import Stepflow.Proofs.Endings
import Stepflow.Proofs.Run.Names

/-!
# Runs in which nothing is cancelled

A history is undisturbed if no one who asks in it is told that all is cancelled, and none of its sleeps
is. Then nothing in it is cancelled: whatever else comes of a step, of a try of a step, or of a run inside
a step, it does not end because of a cancellation. `Spares` says so of a script; it is read off the
scripts, one lemma for every builder, and goes by induction on steps and on the levels of runs inside them.
-/

namespace Stepflow

open Script

variable {κ : Type} {α β : Type} {h k : History (Inquiry κ) Inquiry.Answer}

/-! ## Undisturbed histories -/

/-- The entry is the answer that all is cancelled. -/
def Entry.callsOff : Entry κ → Bool
  | ⟨⟨_, _, .isCancelled⟩, cancelled⟩ => cancelled
  | _ => false

theorem Entry.callsOff_into (l : Layer) (e : Entry κ) : (e.into l).callsOff = e.callsOff := by
  obtain ⟨⟨site, step, request⟩, answer⟩ := e
  cases request <;> rfl

/-- **Nothing is cancelled** in the history. -/
structure Undisturbed (h : History (Inquiry κ) Inquiry.Answer) : Prop where
  /-- No one is told that all is. -/
  answers : ∀ e ∈ exchanges h, Entry.callsOff e = false
  /-- No sleep is. -/
  sleeps : Unwoken h

namespace Undisturbed

theorem append_iff : Undisturbed (h ++ k) ↔ Undisturbed h ∧ Undisturbed k := by
  constructor
  · rintro ⟨ha, hs⟩
    rw [exchanges_append, List.forall_mem_append] at ha
    obtain ⟨hs₁, hs₂⟩ := unwoken_append.1 hs
    exact ⟨⟨ha.1, hs₁⟩, ⟨ha.2, hs₂⟩⟩
  · rintro ⟨⟨ha₁, hs₁⟩, ⟨ha₂, hs₂⟩⟩
    refine ⟨?_, unwoken_append.2 ⟨hs₁, hs₂⟩⟩
    rw [exchanges_append, List.forall_mem_append]
    exact ⟨ha₁, ha₂⟩

theorem left (hu : Undisturbed (h ++ k)) : Undisturbed h := (append_iff.1 hu).1

theorem right (hu : Undisturbed (h ++ k)) : Undisturbed k := (append_iff.1 hu).2

theorem tail {turn : Turn (Inquiry κ) Inquiry.Answer} (hu : Undisturbed (turn :: h)) : Undisturbed h :=
  right (h := [turn]) hu

/-- Undisturbed is undisturbed, however far out it is seen from. -/
theorem of_into {l : Layer} (hu : Undisturbed (h.map (Turn.into l))) : Undisturbed h where
  answers := by
    intro e he
    rw [← Entry.callsOff_into l e]
    exact hu.answers _ (exchanges_into h l ▸ List.mem_map_of_mem he)
  sleeps := by
    intro turn hm
    have hturn := hu.sleeps _ (List.mem_map_of_mem hm)
    cases turn <;> exact hturn

/-- Whoever asks is told that nothing is cancelled. -/
theorem pollTurn_eq {cancelled : Bool} (hu : Undisturbed (Runner.pollTurn cancelled :: h)) :
    cancelled = false := hu.answers _ List.mem_cons_self

end Undisturbed

/-- **Where no one is ever told that all is cancelled** and every sleep is over at once, the history is
undisturbed. -/
theorem undisturbed_follow {answer : Nat → (q : Inquiry κ) → q.Answer}
    (ha : ∀ n q, Entry.callsOff ⟨q, answer n q⟩ = false) (n : Nat) (s : RunScript κ α) :
    Undisturbed (follow answer n s).1 := by
  induction s generalizing n with
  | done a => exact ⟨List.forall_mem_nil _, List.forall_mem_nil _⟩
  | ask q next ih =>
    have hrest := ih (answer n q) (n + 1)
    exact ⟨List.forall_mem_cons.2 ⟨ha n q, hrest.answers⟩, List.forall_mem_cons.2 ⟨rfl, hrest.sleeps⟩⟩
  | poll deadline next ih =>
    have hrest := ih (some false) n
    exact ⟨hrest.answers, List.forall_mem_cons.2 ⟨rfl, hrest.sleeps⟩⟩
  | pause next ih => exact ih n
  | sleep deadline next ih =>
    have hrest := ih false n
    exact ⟨hrest.answers, List.forall_mem_cons.2 ⟨rfl, hrest.sleeps⟩⟩

/-- Steady surroundings cancel nothing. -/
theorem Request.callsOff_steadily {ticket : String → Nat} {reply : Nat → Except String Reply}
    (q : Inquiry κ) : Entry.callsOff ⟨q, q.request.steadily ticket reply⟩ = false := by
  obtain ⟨site, step, request⟩ := q
  cases request <;> rfl

namespace RunScript

variable {P : α → Prop} {Q : β → Prop} {s : RunScript κ α}

/-- **Where nothing is cancelled**, whatever the script ends with has a property. -/
def Spares (P : α → Prop) (s : RunScript κ α) : Prop := ∀ h a, s.Unfolds h a → Undisturbed h → P a

theorem spares_done {a : α} (h : P a) : Spares P (.done a : RunScript κ α) := fun _ _ u _ =>
  (unfolds_done.1 u).2 ▸ h

theorem spares_true : s.Spares fun _ => True := fun _ _ _ _ => trivial

theorem spares_isCancelled : (isCancelled : RunScript κ Bool).Spares (· = false) := fun _ _ u hu =>
  Undisturbed.pollTurn_eq (Runner.unfolds_isCancelled.1 u ▸ hu)

/-- No sleep ends early. -/
theorem spares_sleepUntil (deadline : Nat) :
    Spares (· = false) (sleepUntil deadline : RunScript κ Bool) := by
  rintro h cancelled u hu
  obtain ⟨x, k, u₁, rfl⟩ := unfolds_poll.1 u
  cases x with
  | some woken =>
    obtain ⟨rfl, rfl⟩ := unfolds_done.1 u₁
    exact Bool.eq_false_iff.2 fun hwoken =>
      of_decide_eq_false (hu.sleeps _ List.mem_cons_self) (congrArg some hwoken)
  | none =>
    obtain ⟨x, l, u₂, rfl⟩ := unfolds_sleep.1 u₁
    obtain ⟨rfl, rfl⟩ := unfolds_done.1 u₂
    exact hu.sleeps _ (List.mem_cons_of_mem _ List.mem_cons_self)

namespace Spares

theorem andThen {f : α → RunScript κ β} (hs : s.Spares P) (hf : ∀ a, P a → (f a).Spares Q) :
    Spares Q (s.andThen f) := fun _ _ u hu => by
  obtain ⟨h₁, h₂, a, u₁, u₂, rfl⟩ := unfolds_andThen.1 u
  exact hf a (hs h₁ a u₁ hu.left) h₂ _ u₂ hu.right

theorem under {l : Layer} (hs : s.Spares P) : (s.under l).Spares P := fun _ a u hu => by
  obtain ⟨k, v, rfl⟩ := unfolds_under.1 u
  exact hs k a v hu.of_into

end Spares

/-- Side by side each script ends as it would alone. -/
theorem spares_all {ss : List (RunScript κ α)} (h : ∀ s ∈ ss, Spares P s) :
    Spares (fun as => ∀ a ∈ as, P a) (Script.all ss) := fun k as u hu => by
  have hall := members_of_all u
  clear u
  induction hall with
  | nil => exact List.forall_mem_nil _
  | cons hs _ ih =>
    obtain ⟨l, v, hsub, hstill⟩ := hs
    refine List.forall_mem_cons.2 ⟨?_, ih fun s hm => h s (List.mem_cons_of_mem _ hm)⟩
    exact h _ List.mem_cons_self l _ v ⟨fun e he => hu.answers e (hsub he), hstill hu.sleeps⟩

end RunScript

/-! ## Steps -/

variable {r : Runner κ} {execute : Execute κ} {c : Context} {scope : Scope} {s : Step}

/-- The outcome of a step, if it is not cancelled. -/
abbrev StepOutcome.Spared (o : StepOutcome) : Prop := o.result.status ≠ .cancelled

/-- A try that is not cancelled. -/
abbrev Attempt.Spared (a : Attempt) : Prop := a.outcome ≠ .error .cancelled

/-- A run that is refused, or not cancelled. -/
def Execution.Spared (x : Except Refusal Execution) : Prop := ∀ y, x = .ok y → y.result.cancelled = false

theorem StepError.cancelled_foreign : Foreign (· = .cancelled) where
  reference := by rintro _ ⟨⟩
  component := by rintro _ _ ⟨⟩
  agent := by rintro _ _ ⟨⟩
  cycle := by rintro _ ⟨⟩
  refused := by rintro _ _ ⟨⟩

/-- What a step comes to is cancelled only if its last try was. -/
theorem Step.Closes.spared {a : Attempt} {n d : Nat} {o : StepOutcome} (hc : s.Closes a n d o)
    (ha : a.Spared) : o.Spared := by
  cases hc with
  | completed _ =>
    show (if a.fixes = 0 then StepStatus.passed else .fixed) ≠ .cancelled
    split <;> nofun
  | cancelled houtcome => exact absurd houtcome ha
  | pardoned _ _ _ | failed _ _ _ => nofun

namespace StepScript

variable {space : Namespace} {name : String}

/-- **A part of a step is not cancelled**, whatever it is answered. -/
abbrev Spared (x : StepScript κ α) : Prop := x.Avoids (· = .cancelled)

theorem spared_find : (r.find space name).Spared := by
  unfold Spared Avoids Runner.find
  rw [ExceptT.run_mk]
  split
  · exact gives_done fun _ _ => nofun
  · exact Gives.andThen gives_true fun _ _ => gives_done fun _ _ => nofun
  · exact gives_done fun e he heq => nomatch he.symm.trans (Except.error.inj heq).symm

theorem spared_findWorkflow : (r.findWorkflow name).Spared := by
  unfold Spared Avoids Runner.findWorkflow
  rw [ExceptT.run_mk]
  split
  · exact gives_done fun _ _ => nofun
  · exact Gives.andThen gives_true fun _ _ => gives_done fun _ _ => nofun
  · exact gives_done fun e he heq => nomatch he.symm.trans (Except.error.inj heq).symm

/-- What it fails with is no cancellation. -/
theorem Spared.run {x : StepScript κ α} (hx : x.Spared) :
    RunScript.Spares (· ≠ .error .cancelled) x.run := fun _ _ u _ => hx.of_unfolds u _ rfl

end StepScript

namespace Runner

open RunScript

/-- A step that waits is not woken up. -/
theorem wait_spares (p : RetryPolicy) (tries : Nat) : (r.wait p tries).Spares (· = false) :=
  Spares.andThen spares_true fun _ _ => Spares.andThen spares_true fun _ _ => spares_sleepUntil _

theorem attempting_spares {x : StepScript κ Value} (hx : x.Spared) :
    (attempting x).Spares Attempt.Spared :=
  hx.run.andThen fun _ hy => spares_done hy

/-- What the step around makes of a step that is not cancelled is not cancelled. -/
theorem outcomeWith_spared {o : StepOutcome} {wrap : String → StepError} (ho : o.Spared)
    (hw : ∀ error, wrap error ≠ .cancelled) : o.outcomeWith wrap ≠ .error .cancelled :=
  StepOutcome.outcomeWith_ne hw fun hc => absurd hc ho

theorem branching_spares {options : List (Expression × Planned κ)}
    (h : ∀ o ∈ options, o.2.run.Spares StepOutcome.Spared) :
    (branching c options).Spares Attempt.Spared := by
  induction options with
  | nil => exact spares_done nofun
  | cons o rest ih =>
    rw [branching]
    split
    · exact spares_done (by rintro ⟨⟩)
    · exact ih fun o ho => h o (List.mem_cons_of_mem _ ho)
    · exact (h _ List.mem_cons_self).under.andThen fun o ho => spares_done (outcomeWith_spared ho (by rintro _ ⟨⟩))

theorem recovering_spares {fallback : Option (Planned κ)} {a : Attempt}
    (h : ∀ f ∈ fallback, f.run.Spares StepOutcome.Spared) (ha : a.Spared) :
    (recovering fallback a).Spares Attempt.Spared := by
  unfold recovering
  split
  · split
    · exact spares_done ha
    · refine (h _ rfl).under.andThen fun o ho => spares_done ?_
      dsimp only [Attempt.Spared, Attempt.recovered]
      exact outcomeWith_spared ho (by rintro _ ⟨⟩)
  · exact spares_done ha

theorem validating_spares {stages : StepScript κ (Option StageFailure)} {fix : Option (Planned κ)}
    (hs : stages.Spared) (hf : ∀ f ∈ fix, f.run.Spares StepOutcome.Spared) (left : Nat) (fixes : Fixes) :
    (validating stages fix left fixes).Spares Attempt.Spared := by
  induction left generalizing fixes with
  | zero =>
    rw [validating]
    refine hs.run.andThen fun outcome houtcome => ?_
    split
    · exact spares_done fun he => houtcome (congrArg _ (Except.error.inj he))
    · exact spares_done (by rintro ⟨⟩)
    · exact spares_done (by rintro ⟨⟩)
  | succ left ih =>
    rw [validating]
    refine hs.run.andThen fun outcome houtcome => ?_
    split
    · exact spares_done fun he => houtcome (congrArg _ (Except.error.inj he))
    · exact spares_done (by rintro ⟨⟩)
    · refine spares_isCancelled.andThen fun cancelled hc => ?_
      rw [if_neg (Bool.eq_false_iff.1 hc)]
      cases fix with
      | none => exact ih _
      | some f =>
        refine (hf f rfl).under.andThen fun o ho => ?_
        dsimp only
        rw [if_neg ho]
        exact ih _

/-- A group none of whose members is cancelled is not. -/
theorem ofMembers_spared {os : List StepOutcome} (hos : ∀ o ∈ os, o.Spared) :
    (Attempt.ofMembers os).Spared := by
  have hnone : (os.map StepOutcome.result).any (fun r => r.status = .cancelled) = false := by
    simpa using hos
  unfold Attempt.ofMembers Attempt.Spared
  dsimp only
  rw [hnone]
  split <;> nofun

theorem grouping_spares {members : List (Planned κ)}
    (h : ∀ m ∈ members, m.run.Spares StepOutcome.Spared) :
    (grouping members).Spares Attempt.Spared := by
  unfold grouping
  split
  · exact spares_done (by rintro ⟨⟩)
  · refine (spares_all fun s hs => ?_).andThen fun os hos => spares_done (ofMembers_spared hos)
    obtain ⟨m, hm, rfl⟩ := List.mem_map.1 hs
    exact (h m.1 (List.fst_mem_of_mem_zipIdx hm)).under

theorem runNested_spares {step workflow : String} {inputs : Fields}
    (he : ∀ w given scope, (execute w given scope).Spares Execution.Spared) :
    (r.runNested execute c scope step workflow inputs).Spares Attempt.Spared := by
  have hprepare : (r.prepare c scope workflow inputs).Spared :=
    StepScript.Avoids.prepare StepError.cancelled_foreign StepScript.spared_findWorkflow
  refine (StepScript.Spared.run hprepare).andThen fun prepared hp => ?_
  split
  · exact spares_done fun he => hp (congrArg _ (Except.error.inj he))
  · refine (he _ _ _).under.andThen fun result hr => ?_
    split
    · exact spares_done nofun
    · rename_i x
      refine spares_done fun hx => ?_
      unfold Execution.attempt at hx
      dsimp only at hx
      rw [hr x rfl] at hx
      split at hx <;> nomatch hx

theorem retried_spares {policy : Option RetryPolicy} {attempt : RunScript κ Attempt}
    (ha : attempt.Spares Attempt.Spared) : (r.retried policy attempt).Spares fun x => x.1.Spared := by
  have hretrying : ∀ p left tries effects,
      (retrying (r.wait p) attempt left tries effects).Spares fun x => x.1.Spared := by
    intro p left
    induction left with
    | zero => exact fun _ _ => ha.under.andThen fun a ha => spares_done ha
    | succ left ih =>
      refine fun tries effects => ha.under.andThen fun a ha => ?_
      dsimp only
      split
      · refine (wait_spares p _).andThen fun cancelled hc => ?_
        rw [if_neg (Bool.eq_false_iff.1 hc)]
        exact ih _ _
      · exact spares_done ha
  cases policy with
  | none => exact ha.under.andThen fun a ha => spares_done ha
  | some p => exact hretrying p _ _ _

section

variable (he : ∀ w given scope, (execute w given scope).Spares Execution.Spared)

include he

theorem kindOf_spares {name : String} {kind : StepKind Step}
    (hi : ∀ i ∈ kind.inner, (r.step execute c scope i).Spares StepOutcome.Spared) :
    (r.kindOf execute c scope name kind).Spares Attempt.Spared := by
  have hforeign := StepError.cancelled_foreign
  cases kind with
  | call action args kwargs =>
    rw [kindOf]
    exact attempting_spares (.callAction hforeign StepScript.spared_find args kwargs)
  | agent agent inline builder =>
    rw [kindOf]
    exact attempting_spares (.runAgent hforeign StepScript.spared_find fun _ _ => StepScript.spared_find)
  | generate generator inline builder =>
    rw [kindOf]
    exact attempting_spares
      (.runGenerator hforeign StepScript.spared_find fun _ _ => StepScript.spared_find)
  | validate stages retry fix =>
    rw [kindOf, fallbackOf_eq]
    refine validating_spares (.runStages fun _ _ => StepScript.spared_find) (fun f hf => ?_) _ _
    obtain ⟨i, hm, rfl⟩ := Option.map_eq_some_iff.1 hf
    exact hi i (Option.mem_toList.2 hm)
  | subworkflow workflow inputs =>
    rw [kindOf]
    exact runNested_spares he
  | branch options =>
    rw [kindOf, optionsOf_eq]
    refine branching_spares fun o ho => ?_
    obtain ⟨b, hb, rfl⟩ := List.mem_map.1 ho
    exact hi b.step (List.mem_map_of_mem hb)
  | parallel members =>
    rw [kindOf, membersOf_eq]
    refine grouping_spares fun m hm => ?_
    obtain ⟨i, him, rfl⟩ := List.mem_map.1 hm
    exact hi i him

/-- **A step is not cancelled where nothing is**, if no run inside a step is. -/
theorem step_spares_of (s : Step) (c : Context) (scope : Scope) :
    (r.step execute c scope s).Spares StepOutcome.Spared := by
  induction s using Step.induction generalizing c scope with
  | h s ih =>
    intro h o u hu
    cases step_course u with
    | skipped _ uend =>
      obtain ⟨now, d, rfl, -⟩ := finish_unfolds uend
      nofun
    | cancelled _ uend => exact absurd hu.tail.pollTurn_eq nofun
    | @tried _ _ a a' _ _ _ _ _ utries ufallback uend =>
      obtain ⟨now, d, rfl, -⟩ := finish_unfolds uend
      have hrest := hu.tail.tail.tail
      have ha : a.Spared := retried_spares (kindOf_spares he fun i hi =>
        ih i (List.mem_append_left _ hi) c scope) _ _ utries hrest.left
      have ha' : a'.Spared := by
        refine recovering_spares (fun f hf => ?_) ha _ _ ufallback hrest.right.left
        obtain ⟨i, hi, rfl⟩ := Option.map_eq_some_iff.1 hf
        exact ih i (List.mem_append_right _ (Option.mem_toList.2 hi)) c scope
      exact (s.conclude_closes a' _ d).spared ha'

end

/-! ## Runs -/

section

variable {run : Context → Step → RunScript κ StepOutcome}
  {save : Step → List StepResult → RunScript κ (Except CheckpointError Unit)} {ss : List Step}
  {p q : Place} {o : StepOutcome} {ending : Ending}

theorem Takes.spared (hr : (run p.context s).Spares StepOutcome.Spared) (ht : Takes run s p h o)
    (hu : Undisturbed h) : o.Spared := by
  obtain ⟨u⟩ := ht
  exact hr.under _ _ u hu.tail

/-- The steps of a run do not stop because of a cancellation. -/
theorem Stops.not_cancelled (hr : ∀ s c, (run c s).Spares StepOutcome.Spared)
    (hs : Stops run save ss p h q ending) (hu : Undisturbed h) : ending ≠ .cancelled := by
  cases hs with
  | finished => nofun
  | cancelledBefore => exact absurd hu.pollTurn_eq nofun
  | cancelled _ ht hstatus => exact absurd hstatus (ht.spared (hr _ _) hu)
  | failed => nofun
  | unsaved => nofun

end

theorem executeFrom_spares (he : ∀ w given scope, (execute w given scope).Spares Execution.Spared)
    (recorded : List StepResult) (w : Workflow) (given : Fields) (scope : Scope) :
    (r.executeFrom execute recorded w given scope).Spares Execution.Spared := by
  rintro h _ u hu x rfl
  obtain @⟨p, q, p', left, began, ending, x, h₁, h₂, h₃, hreplay, hpasses, hstops, hends⟩ :=
    executeFrom_course u
  have hending : ending ≠ .cancelled :=
    hstops.not_cancelled (fun s c => step_spares_of he s c scope) hu.right.right.left
  rw [(conclude_unfolds hends).1.cancelled]
  cases ending with
  | cancelled => contradiction
  | finished => rfl
  | failed error => rfl

/-- **No run inside a step is cancelled where nothing is**, by induction on the levels of nesting. -/
theorem execute_spares (levels : Nat) (w : Workflow) (given : Fields) (scope : Scope) :
    (r.execute levels w given scope).Spares Execution.Spared := by
  induction levels generalizing w given scope with
  | zero => exact spares_done fun _ hy => nomatch hy
  | succ levels ih => exact executeFrom_spares ih [] w given scope

/-- **No step is cancelled where nothing is.** -/
theorem step_spares (levels : Nat) (s : Step) (c : Context) (scope : Scope) :
    (r.step (r.execute levels) c scope s).Spares StepOutcome.Spared :=
  step_spares_of (execute_spares levels) s c scope

end Runner

end Stepflow
