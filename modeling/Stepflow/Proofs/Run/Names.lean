import Stepflow.Proofs.Run.Parts
import Stepflow.Validation.Load

/-!
# Names that runs look up

The steps of a run look up the components and workflows that they name, and a run that failed those that
compensate its steps. `Workflow.references` lists these names for a check before the run. Here it is shown
that the list is complete: a step whose listed names are registered (`Step.Known`) fails in no try because a
name is not (`Attempt.Known`), and leaves only compensations that can be called (`Effects.Known`).

Both are read off the scripts, one lemma for every builder, and then go by induction on steps and on the
levels of runs inside steps. A run that is resumed takes compensations over from recorded results; they are
those of steps in the workflow (`replay_known`).
-/

namespace Stepflow

open Script

variable {κ : Type} {α β : Type}

/-! ## What scripts end with -/

namespace Script

variable {ρ : Type} {Answer : ρ → Type} {P : α → Prop} {Q : β → Prop} {s : Script ρ Answer α}

/-- **Whatever the script ends with** has a property. -/
def Gives (P : α → Prop) (s : Script ρ Answer α) : Prop := ∀ t a, s.Traces t a → P a

theorem gives_done {a : α} (h : P a) : (.done a : Script ρ Answer α).Gives P := fun _ _ ht =>
  (traces_done.1 ht).2 ▸ h

theorem gives_true : s.Gives fun _ => True := fun _ _ _ => trivial

theorem Gives.andThen {f : α → Script ρ Answer β} (hs : s.Gives P) (hf : ∀ a, P a → (f a).Gives Q) :
    (s.andThen f).Gives Q := fun _ _ ht => by
  obtain ⟨t₁, t₂, a, h₁, h₂, -⟩ := traces_andThen.1 ht
  exact hf a (hs t₁ a h₁) t₂ _ h₂

theorem Gives.mono {P' : α → Prop} (hs : s.Gives P) (h : ∀ a, P a → P' a) : s.Gives P' :=
  fun t a ht => h a (hs t a ht)

theorem Gives.of_unfolds {h : History ρ Answer} {a : α} (hs : s.Gives P) (u : s.Unfolds h a) : P a :=
  hs _ a u.traces

/-- Scripts side by side end with what each ends with. -/
theorem gives_all {ss : List (Script ρ Answer α)} (h : ∀ s ∈ ss, s.Gives P) :
    (all ss).Gives fun as => ∀ a ∈ as, P a := fun t as ht => by
  have hall := TracesAll.of_all ht
  clear ht
  induction hall with
  | nil => exact nofun
  | cons hs _ _ ih =>
    exact List.forall_mem_cons.2 ⟨h _ List.mem_cons_self _ _ hs,
      ih fun s hs => h s (List.mem_cons_of_mem _ hs)⟩

end Script

theorem RunScript.gives_under {P : α → Prop} {l : Layer} {s : RunScript κ α} (h : s.Gives P) :
    (s.under l).Gives P := fun _ a ht => by
  obtain ⟨u, hu, -⟩ := RunScript.traces_under.1 ht
  exact h u a hu

/-! ## Registered names -/

namespace Registry

variable {r : Registry κ} {space : Namespace} {name : String}

/-- **A registered name** of a component leads to it. -/
theorem resolve_of_has (h : r.has space name) (hs : space ≠ .workflows) :
    ∃ component, r.component? space name = some component ∧ r.resolve space name = .found component := by
  have hget : ∀ t : Table κ, t.contains name → ∃ component, t.get? name = some component :=
    fun t ht => Option.isSome_iff_exists.1 ht
  obtain ⟨component, hc⟩ : ∃ component, r.component? space name = some component := by
    cases space with
    | workflows => contradiction
    | _ => exact hget _ h
  refine ⟨component, hc, ?_⟩
  rw [resolve, hc]
  rfl

/-- And that of a workflow to the workflow. -/
theorem resolveWorkflow_of_has (h : r.has .workflows name) :
    ∃ w, r.workflows.get? name = some w ∧ r.resolveWorkflow name = .found w := by
  obtain ⟨w, hw⟩ := Option.isSome_iff_exists.1 h
  refine ⟨w, hw, ?_⟩
  rw [resolveWorkflow, hw]
  rfl

end Registry

/-- **The names in a step are known**: those that it lists, wherever it stands, are registered. -/
def Step.Known (r : Registry κ) (s : Step) : Prop :=
  ∃ loc, ∀ ref ∈ s.references loc, r.has ref.space ref.name

/-- **A compensation can be called**: its callable is registered. -/
def Compensation.Known (r : Registry κ) (c : Compensation) : Prop := r.has .callables c.action

/-- All compensations that are left can be called. -/
def Effects.Known (r : Registry κ) (e : Effects) : Prop := ∀ c ∈ e.compensations, c.Known r

/-- **A try that knew all names** did not fail because one is not registered, and leaves compensations that
can be called. -/
structure Attempt.Known (r : Registry κ) (a : Attempt) : Prop where
  /-- It failed for another reason, if it did. -/
  outcome : ∀ e, a.outcome ≠ .error (.unregistered e)
  /-- The steps inside it left what can be called. -/
  effects : a.effects.Known r

/-- A workflow that was run and did not fail leaves compensations that can be called. -/
def Execution.Known (r : Registry κ) (x : Except Refusal Execution) : Prop :=
  ∀ y, x = .ok y → ∀ c ∈ y.compensations, c.Known r

variable {r : Runner κ} {g : Registry κ} {execute : Execute κ} {c : Context} {scope : Scope} {s : Step}

namespace Effects.Known

theorem empty : Effects.empty.Known g := fun _ hc => nomatch hc

theorem append {a b : Effects} (ha : a.Known g) (hb : b.Known g) : (a ++ b).Known g := fun c hc =>
  (List.mem_append.1 hc).elim (ha c) (hb c)

theorem concat {es : List Effects} (h : ∀ e ∈ es, e.Known g) : (Effects.concat es).Known g := by
  induction es with
  | nil => exact empty
  | cons e es ih =>
    exact append (h e List.mem_cons_self) (ih fun e he => h e (List.mem_cons_of_mem _ he))

end Effects.Known

namespace Step.Known

theorem kind (h : s.Known g) :
    ∃ loc, ∀ ref ∈ kindReferences loc s.kind, g.has ref.space ref.name := by
  obtain ⟨loc, h⟩ := h
  exact ⟨loc, fun ref hr => h ref (List.mem_append_left _ hr)⟩

/-- The compensation of a step is among its names. -/
theorem rollback (h : s.Known g) {action : String} (hs : action ∈ s.rollback) :
    g.has .callables action := by
  obtain ⟨loc, h⟩ := h
  exact h ⟨loc.field "rollback", .callables, action⟩
    (List.mem_append_right _ (List.mem_map.2 ⟨action, Option.mem_toList.2 hs, rfl⟩))

/-- So what the completion of a step leaves can be called. -/
theorem ofCompleted (h : s.Known g) (output : Value) : (Effects.ofCompleted s output).Known g := by
  intro c hc
  obtain ⟨action, ha, rfl⟩ := List.mem_map.1 hc
  exact h.rollback (Option.mem_toList.1 ha)

end Step.Known

/-! ## Parts of steps that can fail -/

/-- **Errors that no call makes**: the part of a step that calls something fails in none of these ways,
unless it is because a name is not registered. -/
structure StepError.Foreign (bad : StepError → Prop) : Prop where
  /-- A reference cannot be resolved. -/
  reference : ∀ e, ¬bad (.reference e)
  /-- A component fails. -/
  component : ∀ name message, ¬bad (.component name message)
  /-- An agent reports a failure. -/
  agent : ∀ name errors, ¬bad (.agent name errors)
  /-- A workflow is under way already. -/
  cycle : ∀ names, ¬bad (.cycle names)
  /-- A workflow does not take its inputs. -/
  refused : ∀ workflow refusal, ¬bad (.refused workflow refusal)

/-- **The part of a step avoids errors**: it fails with none of them. -/
def StepScript.Avoids (bad : StepError → Prop) (x : StepScript κ α) : Prop :=
  x.run.Gives fun y => ∀ e, bad e → y ≠ .error e

namespace StepScript.Avoids

variable {bad : StepError → Prop}

theorem ok (a : α) : Avoids bad (pure a : StepScript κ α) := gives_done fun _ _ => nofun

theorem fails {e : StepError} (h : ¬bad e) : Avoids bad (throw e : StepScript κ α) :=
  gives_done fun _ he heq => h (Except.error.inj heq ▸ he)

theorem bind {x : StepScript κ α} {f : α → StepScript κ β} (hx : x.Avoids bad)
    (hf : ∀ a, (f a).Avoids bad) : (x >>= f).Avoids bad := by
  refine Gives.andThen hx fun y hy => ?_
  cases y with
  | ok a => exact hf a
  | error e => exact gives_done fun e' he heq => hy e' he (congrArg Except.error (Except.error.inj heq))

theorem lift (x : RunScript κ α) : Avoids bad (ExceptT.lift x) :=
  Gives.andThen gives_true fun _ _ => gives_done fun _ _ => nofun

variable (hb : StepError.Foreign bad)

include hb

theorem resolved (x : Except Expression.Failure α) :
    Avoids bad (Runner.resolved x : StepScript κ α) := by
  cases x with
  | ok a => exact ok a
  | error e => exact fails (hb.reference e)

theorem reply (space : Namespace) (name : String) (component : Option κ) (input : Input) :
    (Runner.reply space name component input).Avoids bad := by
  refine Gives.andThen gives_true fun x _ => ?_
  cases x with
  | ok reply => exact ok reply
  | error message => exact fails (hb.component name message)

theorem callAction {action : String} (h : (r.find .callables action).Avoids bad) (args : List Value)
    (kwargs : Fields) : (r.callAction c action args kwargs).Avoids bad :=
  bind h fun _ => bind (resolved hb _) fun _ => bind (resolved hb _) fun _ =>
    bind (reply hb _ _ _ _) fun _ => ok _

theorem buildContext {inline : Fields} {builder : Option String}
    (h : ∀ b ∈ builder, (r.find .contextBuilders b).Avoids bad) :
    (r.buildContext c inline builder).Avoids bad := by
  refine bind (resolved hb _) fun seed => ?_
  cases builder with
  | none => exact ok _
  | some name => exact bind (h name rfl) fun _ => bind (reply hb _ _ _ _) fun _ => ok _

theorem runAgent {agent : String} {inline : Fields} {builder : Option String}
    (h : (r.find .agents agent).Avoids bad)
    (hbuilder : ∀ b ∈ builder, (r.find .contextBuilders b).Avoids bad) :
    (r.runAgent c agent inline builder).Avoids bad := by
  refine bind h fun _ => bind (buildContext hb hbuilder) fun _ => bind (reply hb _ _ _ _) fun x => ?_
  split
  · exact ok _
  · exact fails (hb.agent _ _)

theorem runGenerator {generator : String} {inline : Fields} {builder : Option String}
    (h : (r.find .generators generator).Avoids bad)
    (hbuilder : ∀ b ∈ builder, (r.find .contextBuilders b).Avoids bad) :
    (r.runGenerator c generator inline builder).Avoids bad :=
  bind h fun _ => bind (buildContext hb hbuilder) fun _ => bind (reply hb _ _ _ _) fun _ => ok _

omit hb in
theorem runStages {stages : List String} (h : ∀ stage ∈ stages, (r.find .callables stage).Avoids bad) :
    (r.runStages stages).Avoids bad := by
  induction stages with
  | nil => exact ok _
  | cons stage rest ih =>
    refine bind (h stage List.mem_cons_self) fun callable => bind (lift _) fun x => ?_
    split
    · exact ok _
    · exact ih fun stage hs => h stage (List.mem_cons_of_mem _ hs)

theorem prepare {workflow : String} {inputs : Fields} (h : (r.findWorkflow workflow).Avoids bad) :
    (r.prepare c scope workflow inputs).Avoids bad := by
  refine bind h fun w => ?_
  dsimp only
  split
  · exact fails (hb.cycle _)
  · refine bind (resolved hb _) fun inputs => ?_
    split
    · exact fails (hb.refused _ _)
    · exact ok _

end StepScript.Avoids

/-- A step fails in this way because a name is not registered. -/
def StepError.IsUnregistered (e : StepError) : Prop := ∃ e', e = .unregistered e'

theorem StepError.isUnregistered_foreign : Foreign IsUnregistered where
  reference := by rintro _ ⟨_, ⟨⟩⟩
  component := by rintro _ _ ⟨_, ⟨⟩⟩
  agent := by rintro _ _ ⟨_, ⟨⟩⟩
  cycle := by rintro _ ⟨_, ⟨⟩⟩
  refused := by rintro _ _ ⟨_, ⟨⟩⟩

/-- **No name that the part of a step looks up is unknown.** -/
abbrev StepScript.Finds (x : StepScript κ α) : Prop := x.Avoids StepError.IsUnregistered

/-- A name that is registered is found. -/
theorem StepScript.Avoids.finds_of_has {space : Namespace} {name : String} (h : r.registry.has space name)
    (hs : space ≠ .workflows) : (r.find space name).Finds := by
  obtain ⟨component, -, hfound⟩ := Registry.resolve_of_has h hs
  unfold Finds Avoids Runner.find
  rw [ExceptT.run_mk, hfound]
  exact gives_done fun _ _ => nofun

theorem StepScript.Avoids.finds_workflow {name : String} (h : r.registry.has .workflows name) :
    (r.findWorkflow name).Finds := by
  obtain ⟨w, -, hfound⟩ := Registry.resolveWorkflow_of_has h
  unfold Finds Avoids Runner.findWorkflow
  rw [ExceptT.run_mk, hfound]
  exact gives_done fun _ _ => nofun

/-! ## What steps do -/

/-- **The error that the step around makes of another** is its own, or that all was cancelled. -/
theorem StepOutcome.outcomeWith_ne {o : StepOutcome} {wrap : String → StepError} {e : StepError}
    (h : ∀ error, wrap error ≠ e) (hc : o.result.status = .cancelled → e ≠ .cancelled) :
    o.outcomeWith wrap ≠ .error e := by
  unfold outcomeWith
  split
  · rename_i hstatus
    exact fun he => hc hstatus (Except.error.inj he).symm
  · split
    · nofun
    · exact fun he => h _ (Except.error.inj he)

/-- A step that is run leaves compensations that can be called. -/
abbrev RunScript.Leaves (g : Registry κ) (x : RunScript κ StepOutcome) : Prop :=
  x.Gives fun o => o.effects.Known g

namespace Runner

theorem attempting_known {x : StepScript κ Value} (hx : x.Finds) : (attempting x).Gives (Attempt.Known g) :=
  Gives.andThen hx fun _ hy => gives_done ⟨fun e => hy _ ⟨e, rfl⟩, .empty⟩

theorem branching_known {options : List (Expression × Planned κ)}
    (h : ∀ o ∈ options, RunScript.Leaves g o.2.run) : (branching c options).Gives (Attempt.Known g) := by
  induction options with
  | nil => exact gives_done ⟨by rintro _ ⟨⟩, .empty⟩
  | cons o rest ih =>
    rw [branching]
    split
    · exact gives_done ⟨by rintro _ ⟨⟩, .empty⟩
    · exact ih fun o ho => h o (List.mem_cons_of_mem _ ho)
    · refine Gives.andThen (RunScript.gives_under (h _ List.mem_cons_self)) fun o ho => ?_
      exact gives_done ⟨fun _ => StepOutcome.outcomeWith_ne (by rintro _ ⟨⟩) (by rintro _ ⟨⟩), ho⟩

theorem recovering_known {fallback : Option (Planned κ)} {a : Attempt}
    (h : ∀ f ∈ fallback, RunScript.Leaves g f.run) (ha : a.Known g) : (recovering fallback a).Gives (Attempt.Known g) := by
  unfold recovering
  split
  · split
    · exact gives_done ha
    · refine Gives.andThen (RunScript.gives_under (h _ rfl)) fun o ho => ?_
      refine gives_done ⟨fun e => ?_, ha.effects.append ho⟩
      dsimp only [Attempt.recovered]
      exact StepOutcome.outcomeWith_ne (by rintro _ ⟨⟩) fun _ => nofun
  · exact gives_done ha

theorem validating_known {stages : StepScript κ (Option StageFailure)} {fix : Option (Planned κ)}
    (hs : stages.Finds) (hf : ∀ f ∈ fix, RunScript.Leaves g f.run) {left : Nat} {fixes : Fixes}
    (h : fixes.effects.Known g) : (validating stages fix left fixes).Gives (Attempt.Known g) := by
  induction left generalizing fixes with
  | zero =>
    rw [validating]
    refine Gives.andThen hs fun outcome houtcome => ?_
    split
    · exact gives_done ⟨fun e he => houtcome _ ⟨e, rfl⟩ (congrArg _ (Except.error.inj he)), h⟩
    · exact gives_done ⟨by rintro _ ⟨⟩, h⟩
    · exact gives_done ⟨by rintro _ ⟨⟩, h⟩
  | succ left ih =>
    rw [validating]
    refine Gives.andThen hs fun outcome houtcome => ?_
    split
    · exact gives_done ⟨fun e he => houtcome _ ⟨e, rfl⟩ (congrArg _ (Except.error.inj he)), h⟩
    · exact gives_done ⟨by rintro _ ⟨⟩, h⟩
    · refine Gives.andThen gives_true fun cancelled _ => ?_
      split
      · exact gives_done ⟨by rintro _ ⟨⟩, h⟩
      · cases fix with
        | none => exact ih h
        | some f =>
          refine Gives.andThen (RunScript.gives_under (hf f rfl)) fun o ho => ?_
          have hafter : (fixes.after o).effects.Known g := h.append ho
          dsimp only
          split
          · exact gives_done ⟨by rintro _ ⟨⟩, hafter⟩
          · exact ih hafter

theorem grouping_known {members : List (Planned κ)} (h : ∀ m ∈ members, RunScript.Leaves g m.run) :
    (grouping members).Gives (Attempt.Known g) := by
  unfold grouping
  split
  · exact gives_done ⟨by rintro _ ⟨⟩, .empty⟩
  · have hall : ∀ s ∈ members.zipIdx.map fun m => m.1.runAs (.member m.2),
        RunScript.Leaves g s := by
      intro s hs
      obtain ⟨m, hm, rfl⟩ := List.mem_map.1 hs
      exact RunScript.gives_under (h m.1 (List.fst_mem_of_mem_zipIdx hm))
    refine Gives.andThen (gives_all hall) fun os hos => gives_done ⟨fun e => ?_, .concat fun e he => ?_⟩
    · unfold Attempt.ofMembers
      dsimp only
      split
      · rintro ⟨⟩
      · split <;> rintro ⟨⟩
    · obtain ⟨o, ho, rfl⟩ := List.mem_map.1 he
      exact hos o ho

theorem attempt_known {x : Execution} {workflow : String} (h : ∀ c ∈ x.compensations, c.Known g) :
    (x.attempt workflow).Known g := by
  refine ⟨fun e => ?_, h⟩
  unfold Execution.attempt
  dsimp only
  split
  · nofun
  · split <;> nofun

/-- **The run of a workflow inside a step** is one of a registered workflow. -/
theorem runNested_known {step workflow : String} {inputs : Fields}
    (h : r.registry.has .workflows workflow)
    (he : ∀ w, r.registry.workflows.get? workflow = some w → ∀ given scope,
      (execute w given scope).Gives (Execution.Known g)) :
    (r.runNested execute c scope step workflow inputs).Gives (Attempt.Known g) := by
  obtain ⟨w, hw, hfound⟩ := Registry.resolveWorkflow_of_has h
  have hprepare : (r.prepare c scope workflow inputs).run.Gives fun y =>
      (∀ e, y ≠ .error (.unregistered e)) ∧ ∀ v given, y = .ok (v, given) → v = w := by
    intro t y ht
    refine ⟨fun e => StepScript.Avoids.prepare StepError.isUnregistered_foreign (.finds_workflow h) t y ht
      _ ⟨e, rfl⟩, ?_⟩
    rintro v given rfl
    obtain hv | ⟨hnone, -⟩ := prepare_ok ht
    · exact Option.some.inj (hv.symm.trans hw)
    · exact absurd (hnone.symm.trans hw) nofun
  refine Gives.andThen hprepare fun prepared hp => ?_
  split
  · exact gives_done ⟨fun e he => hp.1 e (congrArg _ (Except.error.inj he)), .empty⟩
  · rename_i v given
    obtain rfl := hp.2 v given rfl
    refine Gives.andThen (RunScript.gives_under (he v hw _ _)) fun result hr => ?_
    split
    · exact gives_done ⟨nofun, .empty⟩
    · exact gives_done (attempt_known (hr _ rfl))

/-- The names of stages are among those of the step. -/
theorem exists_mem_stageReferences {stage : String} {stages : List String} (h : stage ∈ stages)
    (loc : Location) (place : Nat) :
    ∃ ref ∈ Step.stageReferences loc place stages, ref.space = .callables ∧ ref.name = stage := by
  induction stages generalizing place with
  | nil => contradiction
  | cons s rest ih =>
    obtain rfl | h := List.mem_cons.1 h
    · exact ⟨_, List.mem_cons_self, rfl, rfl⟩
    · obtain ⟨ref, hr, hspace, hname⟩ := ih h (place + 1)
      exact ⟨ref, List.mem_cons_of_mem _ hr, hspace, hname⟩

/-- **What a kind of step does** with known names, if the steps and workflows that it runs leave what can
be called. -/
theorem kindOf_known (hs : s.Known r.registry)
    (hi : ∀ i ∈ s.kind.inner, RunScript.Leaves r.registry (r.step execute c scope i))
    (he : ∀ workflow inputs, s.kind = .subworkflow workflow inputs → ∀ w,
      r.registry.workflows.get? workflow = some w → ∀ given scope,
        (execute w given scope).Gives (Execution.Known r.registry)) :
    (r.kindOf execute c scope s.name s.kind).Gives (Attempt.Known r.registry) := by
  have hforeign := StepError.isUnregistered_foreign
  obtain ⟨loc, hs⟩ := hs.kind
  cases hk : s.kind with
  | call action args kwargs =>
    rw [hk] at hs
    rw [kindOf]
    exact attempting_known (.callAction hforeign (.finds_of_has (hs _ List.mem_cons_self) (by decide)) args kwargs)
  | agent agent inline builder =>
    rw [hk] at hs
    rw [kindOf]
    exact attempting_known (.runAgent hforeign (.finds_of_has (hs _ List.mem_cons_self) (by decide)) fun b hb =>
      .finds_of_has (hs _ (List.mem_cons_of_mem _ (List.mem_map_of_mem (Option.mem_toList.2 hb)))) (by decide))
  | generate generator inline builder =>
    rw [hk] at hs
    rw [kindOf]
    exact attempting_known (.runGenerator hforeign (.finds_of_has (hs _ List.mem_cons_self) (by decide)) fun b hb =>
      .finds_of_has (hs _ (List.mem_cons_of_mem _ (List.mem_map_of_mem (Option.mem_toList.2 hb)))) (by decide))
  | validate stages retry fix =>
    rw [hk] at hs hi
    rw [kindOf, fallbackOf_eq]
    refine validating_known (.runStages fun stage hm => ?_) (fun f hf => ?_) .empty
    · obtain ⟨ref, hr, hspace, rfl⟩ := exists_mem_stageReferences hm (loc.field "stages") 0
      exact .finds_of_has (hspace ▸ hs ref hr) (by decide)
    · obtain ⟨i, hm, rfl⟩ := Option.map_eq_some_iff.1 hf
      exact hi i (Option.mem_toList.2 hm)
  | subworkflow workflow inputs =>
    rw [hk] at hs
    rw [kindOf]
    exact runNested_known (hs _ List.mem_cons_self) (he workflow inputs hk)
  | branch options =>
    rw [hk] at hi
    rw [kindOf, optionsOf_eq]
    refine branching_known fun o ho => ?_
    obtain ⟨b, hb, rfl⟩ := List.mem_map.1 ho
    exact hi b.step (List.mem_map_of_mem hb)
  | parallel members =>
    rw [hk] at hi
    rw [kindOf, membersOf_eq]
    refine grouping_known fun m hm => ?_
    obtain ⟨i, him, rfl⟩ := List.mem_map.1 hm
    exact hi i him

/-! ## Steps -/

theorem retrying_known {wait : Nat → RunScript κ Bool} {attempt : RunScript κ Attempt}
    (h : attempt.Gives (Attempt.Known g)) {left tries : Nat} {effects : Effects}
    (he : effects.Known g) : (retrying wait attempt left tries effects).Gives fun x => x.1.Known g := by
  induction left generalizing tries effects with
  | zero =>
    refine Gives.andThen (RunScript.gives_under h) fun a ha => ?_
    exact gives_done ⟨ha.outcome, he.append ha.effects⟩
  | succ left ih =>
    refine Gives.andThen (RunScript.gives_under h) fun a ha => ?_
    have hall : (effects ++ a.effects).Known g := he.append ha.effects
    dsimp only
    split
    · refine Gives.andThen gives_true fun cancelled _ => ?_
      split
      · exact gives_done ⟨nofun, hall⟩
      · exact ih hall
    · exact gives_done ⟨ha.outcome, hall⟩

theorem retried_known {policy : Option RetryPolicy} {attempt : RunScript κ Attempt}
    (h : attempt.Gives (Attempt.Known g)) : (r.retried policy attempt).Gives fun x => x.1.Known g := by
  cases policy with
  | none => exact Gives.andThen (RunScript.gives_under h) fun a ha => gives_done ha
  | some p => exact retrying_known h .empty

/-- **The names in a step and in all steps inside it are known**, and so it is for the workflows that it
runs. -/
structure Linked (r : Runner κ) (execute : Execute κ) (s : Step) : Prop where
  /-- Each of the steps has known names. -/
  known : ∀ i ∈ s.subtree, i.Known r.registry
  /-- Each workflow that one of them runs leaves what can be called. -/
  runs : ∀ i ∈ s.subtree, ∀ workflow inputs, i.kind = .subworkflow workflow inputs → ∀ w,
    r.registry.workflows.get? workflow = some w → ∀ given scope,
      (execute w given scope).Gives (Execution.Known r.registry)

theorem Linked.nested (h : r.Linked execute s) {i : Step} (hi : i ∈ s.nested) : r.Linked execute i :=
  ⟨fun j hj => h.known j (Step.subtree_subset hi hj), fun j hj => h.runs j (Step.subtree_subset hi hj)⟩

/-- What a step comes to leaves what can be called if its last try does. -/
theorem conclude_known {a : Attempt} {n : Nat} (hs : s.Known g) (ha : a.Known g) :
    (s.conclude a n).effects.Known g := by
  unfold Step.conclude
  dsimp only
  split
  · exact ha.effects.append (hs.ofCompleted _)
  · split <;> exact ha.effects

/-- **Every step leaves only compensations that can be called**, by induction on steps. -/
theorem step_leaves (h : r.Linked execute s) : RunScript.Leaves r.registry (r.step execute c scope s) := by
  induction s using Step.induction with
  | h s ih =>
    have hinside : ∀ i ∈ s.nested, RunScript.Leaves r.registry (r.step execute c scope i) :=
      fun i hi => ih i hi (h.nested hi)
    rintro t o ⟨k, u, -⟩
    cases step_course u with
    | skipped _ uend =>
      obtain ⟨now, d, rfl, -⟩ := finish_unfolds uend
      exact .empty
    | cancelled _ uend =>
      obtain ⟨now, d, rfl, -⟩ := finish_unfolds uend
      exact .empty
    | tried _ utries ufallback uend =>
      obtain ⟨now, d, rfl, -⟩ := finish_unfolds uend
      have hs := h.known s s.mem_subtree_self
      have ha := (retried_known (kindOf_known hs (fun i hi => hinside i (List.mem_append_left _ hi))
        (h.runs s s.mem_subtree_self))).of_unfolds utries
      refine conclude_known hs ((recovering_known (fun f hf => ?_) ha).of_unfolds ufallback)
      obtain ⟨i, hi, rfl⟩ := Option.map_eq_some_iff.1 hf
      exact hinside i (List.mem_append_right _ (Option.mem_toList.2 hi))

/-- **A try of a step** of known names. -/
theorem Linked.kindOf_known (h : r.Linked execute s) :
    (r.kindOf execute c scope s.name s.kind).Gives (Attempt.Known r.registry) :=
  Runner.kindOf_known (h.known s s.mem_subtree_self)
    (fun _ hi => step_leaves (h.nested (List.mem_append_left _ hi))) (h.runs s s.mem_subtree_self)

/-! ## Runs -/

end Runner

/-- The compensations owed at a place can be called. -/
def Place.Known (g : Registry κ) (p : Place) : Prop := ∀ c ∈ p.owed, c.Known g

namespace StepResult

mutual

/-- What a result records for a step is owed for the step, or for one inside it. -/
theorem recordedCompensations_known :
    ∀ (result : StepResult) (s : Step), (∀ i ∈ s.subtree, i.Known g) →
      ∀ c ∈ result.recordedCompensations s, c.Known g
  | ⟨name, type, status, output, error, attempts, durationMs, children⟩, s, h => by
    rw [recordedCompensations]
    split
    · intro c hc
      obtain hc | hc := List.mem_append.1 hc
      · exact recordedCompensationsOf_known children s.nested
          (fun i hi j hj => h j (Step.subtree_subset hi hj)) c hc
      · exact (h s s.mem_subtree_self).ofCompleted output c hc
    · exact fun c hc => nomatch hc

theorem recordedCompensationsOf_known :
    ∀ (results : List StepResult) (steps : List Step), (∀ s ∈ steps, ∀ i ∈ s.subtree, i.Known g) →
      ∀ c ∈ recordedCompensationsOf results steps, c.Known g
  | [], _, _ => fun c hc => nomatch hc
  | result :: rest, steps, h => by
    rw [recordedCompensationsOf]
    intro c hc
    obtain hc | hc := List.mem_append.1 hc
    · split at hc
      · rename_i s hs
        exact recordedCompensations_known result s (h s (List.mem_of_find?_eq_some hs)) c hc
      · contradiction
    · exact recordedCompensationsOf_known rest steps h c hc

end

end StepResult

namespace Runner

variable {w : Workflow} {inputs : Fields} {ss rest : List Step} {p q : Place}

/-- **What a replay takes over** can be called. -/
theorem replay_known {index : Nat} {recorded : List StepResult}
    (h : ∀ s ∈ ss, ∀ i ∈ s.subtree, i.Known g) (hp : p.Known g)
    (hq : Place.replay index ss recorded p = .ok q) : q.Known g := by
  induction recorded generalizing index ss p with
  | nil =>
    rw [Place.replay] at hq
    exact Except.ok.inj hq ▸ hp
  | cons result recorded ih =>
    cases ss with
    | nil => contradiction
    | cons s ss =>
      rw [Place.replay] at hq
      split at hq
      · refine ih (fun s hs => h s (List.mem_cons_of_mem _ hs)) (fun c hc => ?_) hq
        obtain hc | hc := List.mem_append.1 hc
        · exact hp c hc
        · exact result.recordedCompensations_known s (h s List.mem_cons_self) c hc
      · contradiction

section Steps

variable {run : Context → Step → RunScript κ StepOutcome}
  {save : Step → List StepResult → RunScript κ (Except CheckpointError Unit)}
  {h : History (Inquiry κ) Inquiry.Answer} {o : StepOutcome} {ending : Ending}

theorem Takes.known (hr : RunScript.Leaves g (run p.context s)) (hp : p.Known g)
    (ht : Takes run s p h o) : (p.after o).Known g := by
  obtain ⟨u⟩ := ht
  exact fun c hc => (List.mem_append.1 hc).elim (hp c) ((RunScript.gives_under hr).of_unfolds u c)

theorem Passes.known (hr : ∀ s ∈ ss, ∀ c, RunScript.Leaves g (run c s)) (hp : p.Known g)
    (hpass : Passes run save ss p h rest q) : q.Known g := by
  induction hpass with
  | here => exact hp
  | step hgo _ ih =>
    refine ih (fun s hs => hr s (List.mem_cons_of_mem _ hs)) ?_
    cases hgo with
    | skipped ht _ => exact ht.known (hr _ List.mem_cons_self _) hp
    | saved ht _ _ => exact ht.known (hr _ List.mem_cons_self _) hp

theorem Stops.known (hr : ∀ s ∈ ss, ∀ c, RunScript.Leaves g (run c s)) (hp : p.Known g)
    (hstops : Stops run save ss p h q ending) : q.Known g := by
  cases hstops with
  | finished => exact hp
  | cancelledBefore => exact hp
  | cancelled _ ht _ => exact ht.known (hr _ List.mem_cons_self _) hp
  | failed _ ht _ => exact ht.known (hr _ List.mem_cons_self _) hp
  | unsaved _ ht _ _ => exact ht.known (hr _ List.mem_cons_self _) hp

end Steps

/-- **Where the steps of a run end** the run owes only what can be called. -/
theorem stops_known {save : Step → List StepResult → RunScript κ (Except CheckpointError Unit)}
    {recorded : List StepResult} {p' : Place} {h₁ h₂ : History (Inquiry κ) Inquiry.Answer}
    {ending : Ending} (hl : ∀ s ∈ w.steps, r.Linked execute s)
    (hreplay : Place.replay 0 w.steps recorded (r.start inputs) = .ok p)
    (hpasses : Passes (fun c s => r.step execute c scope s) save (w.steps.drop recorded.length) p h₁ rest q)
    (hstops : Stops (fun c s => r.step execute c scope s) save rest q h₂ p' ending) :
    p'.Known r.registry := by
  have hdrop : ∀ s ∈ w.steps.drop recorded.length, s ∈ w.steps := fun s hs => List.mem_of_mem_drop hs
  have hp : p.Known r.registry :=
    replay_known (fun s hs => (hl s hs).known) (fun _ hc => absurd hc List.not_mem_nil) hreplay
  have hq : q.Known r.registry := hpasses.known (fun s hs c => step_leaves (hl s (hdrop s hs))) hp
  exact hstops.known (fun s hs c => step_leaves (hl s (hdrop s (hpasses.suffix.subset hs)))) hq

/-- **A run leaves only compensations that can be called**, if its steps do. -/
theorem executeFrom_known {recorded : List StepResult} (hl : ∀ s ∈ w.steps, r.Linked execute s) :
    (r.executeFrom execute recorded w inputs scope).Gives (Execution.Known r.registry) := by
  rintro t y ⟨h, u, -⟩ x rfl
  obtain @⟨p, q, p', left, began, ending, x, h₁, h₂, h₃, hreplay, hpasses, hstops, hends⟩ :=
    executeFrom_course u
  obtain ⟨v, now, totalMs, -, -, hs⟩ := conclude_traces hends.traces
  cases ending with
  | failed error =>
    rw [hs.2]
    exact fun c hc => nomatch hc
  | cancelled =>
    rw [hs.2.2]
    exact stops_known hl hreplay hpasses hstops
  | finished =>
    rw [hs.2.2]
    exact stops_known hl hreplay hpasses hstops

end Runner

/-! ## Workflows -/

namespace Registry

/-- **A workflow reaches others** through the steps that run workflows, at any depth. -/
inductive Reaches (r : Registry κ) : Workflow → Workflow → Prop
  /-- It reaches itself. -/
  | refl (w : Workflow) : Reaches r w w
  /-- A step in it runs a registered workflow, which reaches further. -/
  | step {w u v : Workflow} {s : Step} {workflow : String} {inputs : Fields} :
      s ∈ w.steps.flatMap Step.subtree → s.kind = .subworkflow workflow inputs →
      r.workflows.get? workflow = some u → Reaches r u v → Reaches r w v

/-- **A registry covers a workflow** if the check of references finds nothing in it, nor in any workflow
that it reaches. -/
def Covers (r : Registry κ) (w : Workflow) : Prop := ∀ w', r.Reaches w w' → w'.referenceErrors r = []

variable {w u : Workflow}

/-- **A registry covers a workflow** in particular if the check finds nothing in it, nor in any that is
registered. -/
theorem covers_of_registered (hw : w.referenceErrors g = [])
    (hr : ∀ e ∈ g.workflows, e.2.referenceErrors g = []) : g.Covers w := by
  intro w' h
  induction h with
  | refl => exact hw
  | step _ _ hu _ ih => exact ih (hr _ (Table.mem_of_get? hu))

theorem Covers.next (h : g.Covers w) {workflow : String} {inputs : Fields}
    (hs : s ∈ w.steps.flatMap Step.subtree) (hk : s.kind = .subworkflow workflow inputs)
    (hu : g.workflows.get? workflow = some u) : g.Covers u := fun v hv => h v (.step hs hk hu hv)

/-- The steps of a workflow at all depths have locations. -/
theorem exists_located {s : Step} (hs : s ∈ w.steps.flatMap Step.subtree) :
    ∃ loc, (loc, s) ∈ w.located := by
  rw [← w.located_steps] at hs
  obtain ⟨⟨loc, s⟩, hl, rfl⟩ := List.mem_map.1 hs
  exact ⟨loc, hl⟩

/-- **The check of references looks at every name of every step.** -/
theorem Covers.known (h : g.Covers w) (hs : s ∈ w.steps.flatMap Step.subtree) : s.Known g := by
  obtain ⟨loc, hl⟩ := exists_located hs
  refine ⟨loc, fun ref hr => ?_⟩
  have hnone : ∀ ref ∈ w.references, Workflow.unresolved? g ref = none :=
    List.filterMap_eq_nil_iff.1 (List.map_eq_nil_iff.1 (h w (.refl w)))
  have href := Option.map_eq_none_iff.1 (hnone ref (List.mem_flatMap.2 ⟨_, hl, hr⟩))
  unfold referenceError? at href
  split at href
  · assumption
  · contradiction

end Registry

namespace Runner

variable {w : Workflow}

/-- So its steps are linked, if what they run leaves what can be called. -/
theorem Linked.of_covers (h : r.registry.Covers w) (hs : s ∈ w.steps.flatMap Step.subtree)
    (he : ∀ u, r.registry.Covers u → ∀ given scope,
      (execute u given scope).Gives (Execution.Known r.registry)) : r.Linked execute s := by
  have hinside : ∀ i ∈ s.subtree, i ∈ w.steps.flatMap Step.subtree := fun i hi => by
    obtain ⟨d, hd, hs⟩ := List.mem_flatMap.1 hs
    exact List.mem_flatMap.2 ⟨d, hd, Step.subtree_trans hs hi⟩
  exact ⟨fun i hi => h.known (hinside i hi),
    fun i hi workflow inputs hk u hu => he u (h.next (hinside i hi) hk hu)⟩

/-- **Every run inside a step** leaves what can be called, by induction on the levels of nesting. -/
theorem execute_known (levels : Nat) (h : r.registry.Covers w) (given : Fields) (scope : Scope) :
    (r.execute levels w given scope).Gives (Execution.Known r.registry) := by
  induction levels generalizing w given scope with
  | zero => exact gives_done fun _ hy => nomatch hy
  | succ levels ih =>
    exact executeFrom_known fun s hs => .of_covers h (List.mem_flatMap.2 ⟨s, hs, s.mem_subtree_self⟩)
      fun u hu given scope => ih hu given scope

/-- **The steps of a workflow that a registry covers** are linked, on every level. -/
theorem linked_of_covers (levels : Nat) (h : r.registry.Covers w) (hs : s ∈ w.steps.flatMap Step.subtree) :
    r.Linked (r.execute levels) s :=
  .of_covers h hs fun _ hu given scope => execute_known levels hu given scope

end Runner

end Stepflow
