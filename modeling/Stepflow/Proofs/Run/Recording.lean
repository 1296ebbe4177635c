import Stepflow.Proofs.Run.Step

/-!
# Steps that leave what they record

What a step leaves behind live and what its result records are two accounts. They are the same for a
plain step that the run goes on after: inner steps that are not done leave nothing, since only simple
steps are tried again, pardoned or replaced by a fallback, and these have no step inside but the
fallback. So it is by induction on steps: what passed inside is recorded inside, in the same order.
-/

namespace Stepflow

open Script

variable {κ : Type} {r : Runner κ} {s : Step} {c : Context} {scope : Scope} {execute : Execute κ}
  {t : Trace κ}

/-! ## Plain steps -/

/-- Whether a step only calls a component: a callable, an agent or a generator. -/
def Step.isSimple (s : Step) : Bool :=
  match s.kind with
  | .call .. | .agent .. | .generate .. => true
  | .validate .. | .subworkflow .. | .branch .. | .parallel .. => false

/-- **A plain step** runs no workflow. Only if it is simple it is tried again, pardoned, or has a
fallback, and its fallback and its fix are simple. -/
structure Step.Plain (s : Step) : Prop where
  /-- It runs no workflow. -/
  kind : ∀ workflow inputs, s.kind ≠ .subworkflow workflow inputs
  /-- It has these decorations only if it is simple. -/
  decorated : s.isSimple = false → s.retryPolicy = none ∧ s.skipOnError = false ∧ s.onError = none
  /-- Its fallback is simple. -/
  fallback : ∀ f ∈ s.onError, f.isSimple = true
  /-- So is its fix. -/
  fix : ∀ stages retry f, s.kind = .validate stages retry (some f) → f.isSimple = true

/-- **A plain workflow**: all steps in it are plain and have different names. -/
structure Workflow.Plain (w : Workflow) : Prop where
  /-- The steps at any depth are plain. -/
  steps : ∀ s ∈ w.steps.flatMap Step.subtree, s.Plain
  /-- Their names are different. -/
  names : (Workflow.namesIn w.steps).Nodup

/-- A plain workflow is self-contained. -/
theorem Workflow.Plain.selfContained {w : Workflow} (hp : w.Plain) : w.SelfContained :=
  ⟨fun s hs ⟨workflow, inputs, hk⟩ => (hp.steps s hs).kind workflow inputs hk, hp.names⟩

/-! ## What is left and what is recorded -/

/-- The step, in a script of it, leaves what its result records for it, if the run goes on after it
or it is simple. -/
def Step.Records (s : Step) (run : RunScript κ StepOutcome) : Prop :=
  ∀ t o, run.Traces t o → o.result.name = s.name ∧
    (o.result.success ∨ s.isSimple → o.effects = o.result.recorded s)

/-- The same of a step inside another, which looks its result up among all that are directly inside. -/
def Planned.Records (s : Step) (f : Planned κ) : Prop :=
  ∀ t o, f.run.Traces t o → o.result.success ∨ f.step.isSimple →
    o.effects = StepResult.recordedAmong s.nested [o.result]

/-- A try leaves what the results inside it record. -/
def Attempt.Records (s : Step) (a : Attempt) : Prop :=
  a.effects = StepResult.recordedAmong s.nested a.children

theorem Step.Records.planned {i : Step} {run : RunScript κ StepOutcome} (h : i.Records run)
    (hn : (s.nested.map Step.name).Nodup) (hi : i ∈ s.nested) :
    Planned.Records s ⟨i, run⟩ := by
  intro t o ht hgoes
  obtain ⟨hname, heff⟩ := h t o ht
  rw [heff hgoes]
  show Effects.mk _ _ = Effects.mk _ _
  rw [StepResult.recordedCompensationsOf_singleton hn hi hname, StepResult.recordedOutputsOf,
    StepResult.recordedOutputsOf, List.append_nil]

/-- A result that is not done records nothing. -/
theorem StepResult.recordedAmong_of_not_done {steps : List Step} {result : StepResult}
    (h : result.status.isDone = false) : recordedAmong steps [result] = .empty := by
  obtain ⟨name, type, status, output, error, attempts, durationMs, children⟩ := result
  have hnot : ¬ status.isDone = true := ne_true_of_eq_false h
  show Effects.mk _ _ = Effects.mk _ _
  rw [recordedOutputsOf, recordedOutputs, if_neg hnot, recordedOutputsOf, recordedCompensationsOf]
  split
  · rw [recordedCompensations, if_neg hnot]
    rfl
  · rfl

namespace Attempt.Records

theorem bare {a : Attempt} (hc : a.children = []) (he : a.effects = .empty) : a.Records s := by
  rw [Records, hc, he]
  rfl

end Attempt.Records

namespace Runner

/-! ### What simple steps do -/

/-- A try with no step inside it. -/
def Bare (a : Attempt) : Prop := a.children = [] ∧ a.effects = .empty

theorem attempting_bare {x : StepScript κ Value} {a : Attempt} (h : (attempting x).Traces t a) :
    Bare a := by
  obtain ⟨t₁, t₂, outcome, -, h₂, rfl⟩ := traces_andThen.1 h
  obtain ⟨rfl, rfl⟩ := traces_done.1 h₂
  exact ⟨rfl, rfl⟩

theorem retrying_bare {wait : Nat → RunScript κ Bool} {attempt : RunScript κ Attempt}
    (ha : ∀ t a, attempt.Traces t a → Bare a) {left tries n : Nat} {a : Attempt}
    (h : (retrying wait attempt left tries .empty).Traces t (a, n)) : Bare a := by
  induction left generalizing tries t with
  | zero =>
    obtain ⟨t₁, t₂, b, h₁, h₂, rfl⟩ := traces_andThen.1 h
    obtain ⟨v, hv, rfl⟩ := RunScript.traces_under.1 h₁
    obtain ⟨rfl, rfl, -⟩ := traces_done_pair.1 h₂
    exact ha v b hv
  | succ left ih =>
    obtain ⟨t₁, t₂, b, h₁, h₂, rfl⟩ := traces_andThen.1 h
    obtain ⟨v, hv, rfl⟩ := RunScript.traces_under.1 h₁
    -- the effects of the tries so far stay empty, so the induction goes on from nothing
    have hb := ha v b hv
    rw [hb.2, Effects.append_empty] at h₂
    dsimp only at h₂
    split at h₂
    · obtain ⟨t₃, t₄, cancelled, -, h₄, rfl⟩ := traces_andThen.1 h₂
      split at h₄
      · obtain ⟨rfl, rfl, -⟩ := traces_done_pair.1 h₄
        exact ⟨hb.1, rfl⟩
      · exact ih h₄
    · obtain ⟨rfl, rfl, -⟩ := traces_done_pair.1 h₂
      exact ⟨hb.1, rfl⟩

/-- However often a simple step is tried, no step is inside. -/
theorem retried_bare {policy : Option RetryPolicy} {attempt : RunScript κ Attempt}
    (ha : ∀ t a, attempt.Traces t a → Bare a) {n : Nat} {a : Attempt}
    (h : (r.retried policy attempt).Traces t (a, n)) : Bare a := by
  cases policy with
  | none =>
    obtain ⟨v, hv, -⟩ := retried_none h
    exact ha v a hv
  | some p => exact retrying_bare ha h

/-- What comes of a step goes on only if the step inside does. -/
theorem success_of_outcomeWith {o : StepOutcome} {wrap : String → StepError} {v : Value}
    (h : o.outcomeWith wrap = .ok v) : o.result.success = true := by
  unfold StepOutcome.outcomeWith at h
  split at h
  · contradiction
  · split at h
    · assumption
    · contradiction

theorem not_done_of_outcomeWith {o : StepOutcome} {wrap : String → StepError} {e : StepError}
    (h : o.outcomeWith wrap = .error e) : o.result.status.isDone = false := by
  unfold StepOutcome.outcomeWith at h
  split at h
  · rename_i hs
    rw [hs]
    rfl
  · split at h
    · contradiction
    · rename_i hs
      rw [StepResult.success] at hs
      cases hstatus : o.result.status <;> rw [hstatus] at hs <;> first | rfl | exact absurd rfl hs

/-- **A fallback** that is simple leaves what its result records, and nothing if it fails as well. -/
theorem recovering_records {fallback : Option (Planned κ)} (hf : ∀ f ∈ fallback, f.Records s)
    (hsimple : ∀ f ∈ fallback, f.step.isSimple) {a a' : Attempt} (ha : Bare a)
    (h : (recovering fallback a).Traces t a') :
    a'.Records s ∧ ∀ e, a'.outcome = .error e → a'.effects = .empty := by
  have hsame : (Script.done a : RunScript κ Attempt).Traces t a' →
      a'.Records s ∧ ∀ e, a'.outcome = .error e → a'.effects = .empty := fun h => by
    obtain ⟨rfl, rfl⟩ := traces_done.1 h
    exact ⟨.bare ha.1 ha.2, fun _ _ => ha.2⟩
  unfold recovering at h
  split at h
  · rename_i f e _
    split at h
    · exact hsame h
    · obtain ⟨t₁, t₂, o, h₁, h₂, rfl⟩ := traces_andThen.1 h
      obtain ⟨rfl, rfl⟩ := traces_done.1 h₂
      obtain ⟨v, hv, rfl⟩ := RunScript.traces_under.1 h₁
      have heff := hf f rfl v o hv (.inr (hsimple f rfl))
      simp only [Attempt.Records, Attempt.recovered, ha.1, ha.2, Effects.empty_append, List.nil_append]
      refine ⟨heff, fun e he => ?_⟩
      rw [heff]
      exact StepResult.recordedAmong_of_not_done (not_done_of_outcomeWith he)
  · exact hsame h

/-! ### What other steps do -/

/-- **A validation** with a simple fix leaves what the results of its fixes record. -/
theorem validating_records {stages : StepScript κ (Option StageFailure)} {fix : Option (Planned κ)}
    (hf : ∀ f ∈ fix, f.Records s) (hsimple : ∀ f ∈ fix, f.step.isSimple) {left : Nat} {fixes : Fixes}
    (hfixes : fixes.effects = StepResult.recordedAmong s.nested fixes.children) {a : Attempt}
    (h : (validating stages fix left fixes).Traces t a) : a.Records s := by
  induction left generalizing fixes t with
  | zero =>
    rw [validating] at h
    obtain ⟨t₁, t₂, outcome, -, h₂, rfl⟩ := traces_andThen.1 h
    split at h₂ <;> obtain ⟨rfl, rfl⟩ := traces_done.1 h₂ <;> exact hfixes
  | succ left ih =>
    rw [validating] at h
    obtain ⟨t₁, t₂, outcome, -, h₂, rfl⟩ := traces_andThen.1 h
    split at h₂
    · obtain ⟨rfl, rfl⟩ := traces_done.1 h₂
      exact hfixes
    · obtain ⟨rfl, rfl⟩ := traces_done.1 h₂
      exact hfixes
    · obtain ⟨t₃, t₄, cancelled, -, h₄, rfl⟩ := traces_andThen.1 h₂
      split at h₄
      · obtain ⟨rfl, rfl⟩ := traces_done.1 h₄
        exact hfixes
      · cases fix with
        | none =>
          have hafter : fixes.afterNothing.effects =
              StepResult.recordedAmong s.nested fixes.afterNothing.children := hfixes
          exact ih hafter h₄
        | some f =>
          obtain ⟨t₅, t₆, o, h₅, h₆, rfl⟩ := traces_andThen.1 h₄
          obtain ⟨v, hv, rfl⟩ := RunScript.traces_under.1 h₅
          have hafter : (fixes.after o).effects =
              StepResult.recordedAmong s.nested (fixes.after o).children := by
            rw [Fixes.after, StepResult.recordedAmong_append, ← hfixes,
              ← hf f rfl v o hv (.inr (hsimple f rfl))]
          split at h₆
          · obtain ⟨rfl, rfl⟩ := traces_done.1 h₆
            exact hafter
          · exact ih hafter h₆

/-- **A branch** whose option goes on leaves what its result records. -/
theorem branching_records {options : List (Expression × Planned κ)}
    (ho : ∀ o ∈ options, o.2.Records s) {a : Attempt} (h : (branching c options).Traces t a)
    {v : Value} (hv : a.outcome = .ok v) : a.Records s := by
  induction options with
  | nil =>
    obtain ⟨rfl, rfl⟩ := traces_done.1 h
    contradiction
  | cons o rest ih =>
    obtain ⟨condition, option⟩ := o
    rw [branching] at h
    split at h
    · obtain ⟨rfl, rfl⟩ := traces_done.1 h
      contradiction
    · exact ih (fun o ho' => ho o (List.mem_cons_of_mem _ ho')) h
    · obtain ⟨t₁, t₂, o, h₁, h₂, rfl⟩ := traces_andThen.1 h
      obtain ⟨rfl, rfl⟩ := traces_done.1 h₂
      obtain ⟨u, hu, rfl⟩ := RunScript.traces_under.1 h₁
      exact ho _ List.mem_cons_self u o hu (.inl (success_of_outcomeWith hv))

/-- Members that all go on leave what their results record, in their order. -/
theorem members_record {members : List (Planned κ)} (hm : ∀ m ∈ members, m.Records s) {index : Nat}
    {os : List StepOutcome}
    (h : TracesAll ((members.zipIdx index).map fun m => m.1.runAs (.member m.2)) t os)
    (hos : ∀ o ∈ os, o.result.success) : .concat (os.map StepOutcome.effects) =
      StepResult.recordedAmong s.nested (os.map StepOutcome.result) := by
  induction members generalizing index t os with
  | nil =>
    cases h
    rfl
  | cons m rest ih =>
    rw [List.zipIdx_cons, List.map_cons] at h
    obtain _ | ⟨hv, hw, -⟩ := h
    rename_i o os
    obtain ⟨u, hu, rfl⟩ := RunScript.traces_under.1 hv
    have hfirst := hm m List.mem_cons_self u o hu (.inl (hos o List.mem_cons_self))
    have hrest := ih (fun m hm' => hm m (List.mem_cons_of_mem _ hm')) hw
      fun o ho => hos o (List.mem_cons_of_mem _ ho)
    have hsplit := StepResult.recordedAmong_append s.nested [o.result] (os.map StepOutcome.result)
    rw [← hfirst, ← hrest] at hsplit
    exact hsplit.symm

/-- A group that comes to something has only members that go on. -/
theorem success_of_ofMembers {os : List StepOutcome} {v : Value}
    (h : (Attempt.ofMembers os).outcome = .ok v) : ∀ o ∈ os, o.result.success := by
  intro o ho
  have hm : o.result ∈ os.map StepOutcome.result := List.mem_map_of_mem ho
  simp only [Attempt.ofMembers] at h
  split at h
  · contradiction
  · rename_i hfailed
    split at h
    · contradiction
    · rename_i hcancelled
      rw [Bool.not_eq_true, Bool.not_eq_false', List.isEmpty_iff, List.map_eq_nil_iff] at hfailed
      have hf : o.result.status ≠ .failed := by
        simpa using List.filter_eq_nil_iff.1 hfailed _ hm
      have hc : o.result.status ≠ .cancelled := by
        simpa using List.any_eq_false.1 (Bool.eq_false_iff.2 hcancelled) _ hm
      rw [StepResult.success]
      cases hs : o.result.status with
      | failed => exact absurd hs hf
      | cancelled => exact absurd hs hc
      | passed | fixed | skipped => rfl

/-- **A group** that comes to something leaves what the results of its members record. -/
theorem grouping_records {members : List (Planned κ)} (hm : ∀ m ∈ members, m.Records s) {a : Attempt}
    (h : (grouping members).Traces t a) {v : Value} (hv : a.outcome = .ok v) : a.Records s := by
  unfold grouping at h
  split at h
  · obtain ⟨rfl, rfl⟩ := traces_done.1 h
    contradiction
  · obtain ⟨t₁, t₂, os, h₁, h₂, rfl⟩ := traces_andThen.1 h
    obtain ⟨rfl, rfl⟩ := traces_done.1 h₂
    exact members_record hm (TracesAll.of_all h₁) (success_of_ofMembers hv)

/-! ### The end of a step -/

end Runner

theorem StepResult.recorded_durationMs (result : StepResult) (d : Nat) :
    { result with durationMs := d }.recorded s = result.recorded s := by
  obtain ⟨name, type, status, output, error, attempts, durationMs, children⟩ := result
  show Effects.mk _ _ = Effects.mk _ _
  simp only [recordedOutputs, recordedCompensations]

namespace Runner

/-- A step that is concluded leaves what its result records, if its tries did. -/
theorem finish_records {began tries : Nat} {a : Attempt} {o : StepOutcome}
    (hok : ∀ v, a.outcome = .ok v → a.Records s)
    (herror : ∀ e, a.outcome = .error e → s.skipOnError ∨ s.isSimple → a.effects = .empty)
    (h : (finish scope s began (s.conclude a tries) : RunScript κ StepOutcome).Traces t o) :
    o.result.name = s.name ∧ (o.result.success ∨ s.isSimple → o.effects = o.result.recorded s) := by
  obtain ⟨q, d, -, rfl, -⟩ := finish_traces h
  rw [StepResult.recorded_durationMs]
  unfold Step.conclude
  cases ha : a.outcome with
  | ok output =>
    refine ⟨rfl, fun _ => ?_⟩
    rw [StepResult.recorded_of_done _ rfl]
    · exact congrArg (· ++ Effects.ofCompleted s output) (hok output ha)
    · dsimp only
      split <;> rfl
  | error e =>
    dsimp only
    split
    · refine ⟨rfl, fun hgoes => ?_⟩
      rw [StepResult.recorded_of_not_done rfl]
      exact herror e ha (.inr (hgoes.resolve_left nofun))
    · refine ⟨rfl, fun hgoes => ?_⟩
      cases hskip : s.skipOnError with
      | true =>
        rw [StepResult.recorded_of_not_done rfl]
        exact herror e ha (.inl hskip)
      | false =>
        rw [hskip] at hgoes
        rw [StepResult.recorded_of_not_done rfl]
        exact herror e ha (.inr (hgoes.resolve_left nofun))

/-- So does one that did nothing. -/
theorem finish_records_undone {began : Nat} {result : StepResult} (hn : result.name = s.name)
    (hdone : result.status.isDone = false) {o : StepOutcome}
    (h : (finish scope s began { result } : RunScript κ StepOutcome).Traces t o) :
    o.result.name = s.name ∧ (o.result.success ∨ s.isSimple → o.effects = o.result.recorded s) := by
  obtain ⟨q, d, -, rfl, -⟩ := finish_traces h
  rw [StepResult.recorded_durationMs, StepResult.recorded_of_not_done hdone]
  exact ⟨hn, fun _ => rfl⟩

/-- **The decorations of a plain step** leave what its result records, if its tries and its fallback
do. -/
theorem decorated_records {attempt : RunScript κ Attempt} {fallback : Option (Planned κ)}
    (hp : s.Plain) (hfallback : fallback.map Planned.step = s.onError)
    (hf : ∀ f ∈ fallback, f.Records s)
    (hsimple : s.isSimple = true → ∀ t a, attempt.Traces t a → Bare a)
    (hother : s.isSimple = false → ∀ t a v, attempt.Traces t a → a.outcome = .ok v → a.Records s) :
    s.Records (r.decorated c scope s attempt fallback) := by
  intro t o h
  obtain ⟨t₁, t₂, began, -, h₂, rfl⟩ := traces_andThen.1 h
  split at h₂
  · exact finish_records_undone rfl rfl h₂
  · obtain ⟨t₃, t₄, cancelled, -, h₄, rfl⟩ := traces_andThen.1 h₂
    split at h₄
    · exact finish_records_undone rfl rfl h₄
    · obtain ⟨t₅, t₆, _, -, h₆, rfl⟩ := traces_andThen.1 h₄
      obtain ⟨t₇, t₈, ⟨a, n⟩, h₇, h₈, rfl⟩ := traces_andThen.1 h₆
      obtain ⟨t₉, t₁₀, a', h₉, h₁₀, rfl⟩ := traces_andThen.1 h₈
      -- a simple step may have any decoration, any other has none
      obtain hs | hs := Bool.eq_false_or_eq_true s.isSimple
      · have hfs : ∀ f ∈ fallback, f.step.isSimple := fun f hm =>
          hp.fallback f.step (hfallback ▸ Option.mem_map_of_mem _ hm)
        obtain ⟨hrec, hnone⟩ := recovering_records hf hfs (retried_bare (hsimple hs) h₇) h₉
        exact finish_records (fun _ _ => hrec) (fun e he _ => hnone e he) h₁₀
      · obtain ⟨hpolicy, hskip, herror⟩ := hp.decorated hs
        rw [herror, Option.map_eq_none_iff] at hfallback
        rw [hpolicy] at h₇
        obtain ⟨v, hv, -⟩ := retried_none h₇
        rw [hfallback] at h₉
        obtain ⟨rfl, rfl⟩ := traces_done.1 h₉
        refine finish_records (fun v hv' => hother hs _ _ v hv hv') (fun e _ hor => ?_) h₁₀
        rw [hskip, hs] at hor
        simp at hor

/-! ## Every plain step -/

/-- **A plain step leaves what it records**, by induction on steps. -/
theorem step_records (hp : ∀ j ∈ s.subtree, j.Plain) (hd : s.Distinct r) (c : Context)
    (scope : Scope) : s.Records (r.step execute c scope s) := by
  induction s using Step.induction generalizing c scope with
  | h s ih =>
    have hinner : ∀ i ∈ s.nested, (r.plan execute c scope i).Records s := fun i hi =>
      Step.Records.planned (ih i hi (fun j hj => hp j (Step.subtree_subset hi hj)) (hd.inside hi) c scope)
        hd.names hi
    have hplain := hp s s.mem_subtree_self
    rw [step_eq, fallbackOf_eq]
    -- the fallback's name, the fallback, the tries of a simple step, the try of another one
    refine decorated_records hplain ?_ ?_ ?_ ?_
    · cases s.onError <;> rfl
    · intro f hf
      obtain ⟨i, hi, rfl⟩ := Option.map_eq_some_iff.1 hf
      exact hinner i (List.mem_append_right _ (Option.mem_toList.2 hi))
    · intro hs t a h
      cases hk : s.kind with
      | call action args kwargs =>
        rw [hk, kindOf] at h
        exact attempting_bare h
      | agent agent inline builder =>
        rw [hk, kindOf] at h
        exact attempting_bare h
      | generate generator inline builder =>
        rw [hk, kindOf] at h
        exact attempting_bare h
      | _ =>
        rw [Step.isSimple, hk] at hs
        contradiction
    · intro hs t a v h hv
      cases hk : s.kind with
      | validate stages retry fix =>
        rw [hk, kindOf, fallbackOf_eq] at h
        refine validating_records (fun f hf => ?_) (fun f hf => ?_) rfl h
        · obtain ⟨i, hi, rfl⟩ := Option.map_eq_some_iff.1 hf
          refine hinner i (List.mem_append_left _ ?_)
          rw [hk]
          exact Option.mem_toList.2 hi
        · obtain ⟨i, rfl, rfl⟩ := Option.map_eq_some_iff.1 hf
          exact hplain.fix stages retry i hk
      | subworkflow workflow inputs => exact absurd hk (hplain.kind workflow inputs)
      | branch options =>
        rw [hk, kindOf, optionsOf_eq] at h
        refine branching_records (fun o ho => ?_) h hv
        obtain ⟨b, hb, rfl⟩ := List.mem_map.1 ho
        refine hinner b.step (List.mem_append_left _ ?_)
        rw [hk]
        exact List.mem_map_of_mem hb
      | parallel members =>
        rw [hk, kindOf, membersOf_eq] at h
        refine grouping_records (fun m hm => ?_) h hv
        obtain ⟨i, hi, rfl⟩ := List.mem_map.1 hm
        refine hinner i (List.mem_append_left _ ?_)
        rw [hk]
        exact hi
      | _ =>
        rw [Step.isSimple, hk] at hs
        contradiction

end Runner

end Stepflow
