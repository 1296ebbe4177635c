import Mathlib.Data.Finset.Card
import Stepflow.Proofs.Run.Workflow

/-!
# The recursion of runs is well founded

A run runs other workflows inside its steps, and these run others again: `executeFrom` refers to the
runs inside steps by a function, and the function that is meant is itself made by `executeFrom`
(`IsExecute`). This file shows that there is exactly one such function (`execute_isExecute`,
`IsExecute.eq`), so nothing depends on the levels that `execute` counts down. What makes the recursion
end is that a step runs no workflow that is under way: the registered names that are not under way get
fewer with every run inside another.

That needs every workflow to be registered under its own name, as the operations of a registry see to
it (`Registry.Filled`).
-/

namespace Stepflow

open Script

variable {κ : Type}

/-! ## Registries -/

namespace Registry

/-- **A registry that its operations have filled**: from an empty one, components and workflows were
registered, and unknown names recorded. -/
inductive Filled : Registry κ → Prop
  /-- It is empty, and strict or lenient. -/
  | empty (lenient : Bool) : Filled { lenient }
  /-- A component was registered. -/
  | component {r r' : Registry κ} {space : Namespace} {name : String} {c : κ} :
      Filled r → r.register space name c = .ok r' → Filled r'
  /-- A workflow was registered. -/
  | workflow {r r' : Registry κ} {w : Workflow} :
      Filled r → r.registerWorkflow w = .ok r' → Filled r'
  /-- An unknown name was recorded. -/
  | deferred {r : Registry κ} (e : RegistryError) : Filled r → Filled (r.defer e)
  /-- What was recorded was taken out. -/
  | taken {r : Registry κ} : Filled r → Filled r.takeDeferred.2

theorem register_workflows {r r' : Registry κ} {space : Namespace} {name : String} {c : κ}
    (h : r.register space name c = .ok r') : r'.workflows = r.workflows := by
  unfold register at h
  split at h
  · contradiction
  · split at h <;> injection h with h <;> rw [← h]

/-- **A workflow is registered under its own name.** -/
theorem Filled.name_eq {r : Registry κ} (h : r.Filled) {name : String} {w : Workflow}
    (hw : r.workflows.get? name = some w) : w.name = name := by
  induction h with
  | empty lenient => contradiction
  | component _ hr ih =>
    rw [register_workflows hr] at hw
    exact ih hw
  | @workflow r r' new _ hr ih =>
    unfold registerWorkflow at hr
    split at hr
    · contradiction
    · injection hr with hr
      rw [← hr] at hw
      by_cases hname : new.name = name
      · subst hname
        rw [Table.get?_insert_self] at hw
        injection hw with hw
        rw [hw]
      · rw [Table.get?_insert_of_ne _ _ hname] at hw
        exact ih hw
  | deferred e _ ih => exact ih hw
  | taken _ ih => exact ih hw

end Registry

/-- What is found in a table is found under one of its names. -/
theorem Table.mem_names {β : Type} {t : Table β} {name : String} {v : β}
    (h : t.get? name = some v) : name ∈ t.names := List.mem_map_of_mem (mem_of_get? h)

/-! ## What a run does with the runs inside its steps -/

/-- What follows a script matters only for the results that the script can have. -/
theorem Script.andThen_congr {ρ : Type} {Answer : ρ → Type} {α β : Type} {x : Script ρ Answer α}
    {f g : α → Script ρ Answer β} (h : ∀ t a, x.Traces t a → f a = g a) :
    x.andThen f = x.andThen g := by
  induction x with
  | done a => exact h [] a (traces_done.2 ⟨rfl, rfl⟩)
  | ask q next ih =>
    rw [andThen, andThen]
    exact congrArg _ (funext fun y => ih y fun t a ht => h _ a (traces_ask.2 ⟨y, t, ht, rfl⟩))
  | poll deadline next ih =>
    rw [andThen, andThen]
    exact congrArg _ (funext fun y => ih y fun t a ht => h t a (traces_poll.2 ⟨y, ht⟩))
  | pause next ih =>
    rw [andThen, andThen]
    exact congrArg _ (ih fun t a ht => h t a (traces_pause.2 ht))
  | sleep deadline next ih =>
    rw [andThen, andThen]
    exact congrArg _ (funext fun y => ih y fun t a ht => h t a (traces_sleep.2 ⟨y, ht⟩))

namespace Runner

variable {r : Runner κ} {execute execute' : Execute κ} {c : Context} {scope : Scope} {w : Workflow}
  {inputs given : Fields}

/-- A workflow that is run is not under way. -/
theorem prepare_fresh {workflow : String} {t : Trace κ}
    (h : (r.prepare c scope workflow inputs).run.Traces t (.ok (w, given))) :
    w.name ∉ scope.stack := by
  obtain ⟨t₁, t₂, w', h₁, h₂, rfl⟩ := StepScript.traces_bind_ok h
  dsimp only at h₂
  split at h₂
  · exact absurd (traces_done.1 h₂).2 nofun
  · rename_i hfresh
    obtain ⟨t₃, t₄, resolved, h₃, h₄, rfl⟩ := StepScript.traces_bind_ok h₂
    split at h₄
    · exact absurd (traces_done.1 h₄).2 nofun
    · injection (traces_done.1 h₄).2 with hw
      injection hw with hw
      rwa [hw, ← List.contains_iff_mem]

section Congruence

/-- The functions agree on the workflows that steps in the scope may run. -/
def AgreeIn (r : Runner κ) (execute execute' : Execute κ) (scope : Scope) : Prop :=
  ∀ c workflow inputs t w given step,
    (r.prepare c scope workflow inputs).run.Traces t (.ok (w, given)) →
      execute w given (scope.nested w.name step) = execute' w given (scope.nested w.name step)

variable (h : r.AgreeIn execute execute' scope)

include h

theorem kindOf_congr {name : String} {kind : StepKind Step}
    (hi : ∀ i ∈ kind.inner, r.step execute c scope i = r.step execute' c scope i) :
    r.kindOf execute c scope name kind = r.kindOf execute' c scope name kind := by
  have hplan : ∀ i ∈ kind.inner, r.plan execute c scope i = r.plan execute' c scope i :=
    fun i hm => by rw [plan, plan, hi i hm]
  cases kind with
  | call action args kwargs => rw [kindOf, kindOf]
  | agent agent inline builder => rw [kindOf, kindOf]
  | generate generator inline builder => rw [kindOf, kindOf]
  | validate stages retry fix =>
    rw [kindOf, kindOf, fallbackOf_eq, fallbackOf_eq]
    congr 1
    exact Option.map_congr fun i hm => hplan i (Option.mem_toList.2 hm)
  | subworkflow workflow inputs =>
    rw [kindOf, kindOf, runNested, runNested]
    refine andThen_congr fun t prepared ht => ?_
    cases prepared with
    | error e => rfl
    | ok found =>
      obtain ⟨w, given⟩ := found
      dsimp only
      rw [h c workflow inputs t w given name ht]
  | branch options =>
    rw [kindOf, kindOf, optionsOf_eq, optionsOf_eq]
    refine congrArg _ (List.map_congr_left fun o ho => ?_)
    rw [hplan o.step (List.mem_map_of_mem ho)]
  | parallel members =>
    rw [kindOf, kindOf, membersOf_eq, membersOf_eq]
    exact congrArg _ (List.map_congr_left hplan)

/-- **A step looks at nothing else** of the function that runs workflows. -/
theorem step_congr (s : Step) : r.step execute c scope s = r.step execute' c scope s := by
  induction s using Step.induction with
  | h s ih =>
    have hinner : ∀ i ∈ s.kind.inner, r.step execute c scope i = r.step execute' c scope i :=
      fun i hi => ih i (List.mem_append_left _ hi)
    have hfallback : r.fallbackOf execute c scope s.onError = r.fallbackOf execute' c scope s.onError := by
      rw [fallbackOf_eq, fallbackOf_eq]
      refine Option.map_congr fun i hi => ?_
      rw [plan, plan, ih i (List.mem_append_right _ (Option.mem_toList.2 hi))]
    rw [step_eq, step_eq, kindOf_congr h hinner, hfallback]

/-- Nor does a run. -/
theorem executeFrom_congr (recorded : List StepResult) :
    r.executeFrom execute recorded w given scope = r.executeFrom execute' recorded w given scope := by
  have hsteps : (fun c s => r.step execute c scope s) = fun c s => r.step execute' c scope s :=
    funext fun c => funext fun s => step_congr h s
  have hgo : ∀ began rest p, r.goOn execute w given scope began rest p =
      r.goOn execute' w given scope began rest p := fun began rest p => by
    rw [goOn, goOn, hsteps]
  simp only [executeFrom_eq, hgo]

end Congruence

/-! ## The measure -/

/-- The registered names that are not under way. -/
def unused (r : Runner κ) (scope : Scope) : Finset String :=
  r.registry.workflows.names.toFinset \ scope.stack.toFinset

theorem card_unused_le (r : Runner κ) (scope : Scope) : (r.unused scope).card ≤ r.levels := by
  calc (r.unused scope).card ≤ r.registry.workflows.names.toFinset.card :=
        Finset.card_le_card Finset.sdiff_subset
    _ ≤ r.registry.workflows.names.length := List.toFinset_card_le _
    _ = r.levels := List.length_map _

/-- **They get fewer** when a registered workflow that is not under way is run. -/
theorem card_unused_lt {step : String} (hw : r.registry.workflows.get? w.name = some w)
    (hfresh : w.name ∉ scope.stack) :
    (r.unused (scope.nested w.name step)).card < (r.unused scope).card := by
  refine Finset.card_lt_card (Finset.ssubset_iff_of_subset ?_ |>.2 ⟨w.name, ?_, ?_⟩)
  · refine Finset.sdiff_subset_sdiff (Finset.Subset.refl _) fun name hm => ?_
    rw [List.mem_toFinset] at hm ⊢
    exact List.mem_append_left _ hm
  · rw [unused, Finset.mem_sdiff, List.mem_toFinset, List.mem_toFinset]
    exact ⟨Table.mem_names hw, hfresh⟩
  · rw [unused, Finset.mem_sdiff, List.mem_toFinset, List.mem_toFinset]
    exact fun hm => hm.2 (List.mem_append_right _ (List.mem_singleton_self _))

/-- A workflow without steps is refused, on whatever level. -/
theorem executeFrom_of_empty (hw : w.steps = []) :
    r.executeFrom execute [] w given scope = .done (.error (.noSteps w.name)) := by
  rw [executeFrom_eq, hw, List.isEmpty_nil, if_pos rfl]

theorem execute_of_empty (hw : w.steps = []) (levels : Nat) :
    r.execute levels w given scope = .done (.error (.noSteps w.name)) := by
  cases levels with
  | zero => rfl
  | succ levels => exact executeFrom_of_empty hw

/-- What steps may run is registered and lowers the measure, or has no steps. -/
theorem prepare_lowers (hr : r.registry.Filled) {workflow : String} {t : Trace κ} (step : String)
    (h : (r.prepare c scope workflow inputs).run.Traces t (.ok (w, given))) :
    (r.unused (scope.nested w.name step)).card < (r.unused scope).card ∨ w.steps = [] := by
  obtain hw | ⟨-, rfl⟩ := prepare_ok h
  · left
    obtain rfl := hr.name_eq hw
    exact card_unused_lt hw (prepare_fresh h)
  · exact .inr rfl

/-! ## The recursion -/

/-- **The function runs workflows as runs do**: with itself for the workflows inside their steps. -/
def IsExecute (r : Runner κ) (execute : Execute κ) : Prop :=
  ∀ w given scope, execute w given scope = r.executeFrom execute [] w given scope

/-- Two such functions agree, by induction on the names that are left. -/
theorem IsExecute.eq (hr : r.registry.Filled) (h : r.IsExecute execute) (h' : r.IsExecute execute') :
    execute = execute' := by
  have hagree : ∀ n scope, (r.unused scope).card < n → ∀ w given,
      execute w given scope = execute' w given scope := by
    intro n
    induction n with
    | zero => exact fun _ hlt => absurd hlt (Nat.not_lt_zero _)
    | succ n ih =>
      intro scope hlt w given
      rw [h, h']
      refine executeFrom_congr (fun c workflow inputs t w' given' step ht => ?_) []
      obtain hless | hempty := prepare_lowers hr step ht
      · exact ih _ (by omega) w' given'
      · rw [h, h', executeFrom_of_empty hempty, executeFrom_of_empty hempty]
  exact funext fun w => funext fun given => funext fun scope =>
    hagree _ scope (Nat.lt_succ_self _) w given

/-- **One level more changes nothing** where there are more levels than names left. -/
theorem execute_succ (hr : r.registry.Filled) {levels : Nat} (hlt : (r.unused scope).card < levels) :
    r.execute levels w given scope = r.execute (levels + 1) w given scope := by
  induction levels generalizing w given scope with
  | zero => exact absurd hlt (Nat.not_lt_zero _)
  | succ levels ih =>
    refine executeFrom_congr (fun c workflow inputs t w' given' step ht => ?_) []
    obtain hless | hempty := prepare_lowers hr step ht
    · exact ih (by omega)
    · rw [execute_of_empty hempty, execute_of_empty hempty]

/-- So counting down one level more than there are names solves the recursion. -/
theorem execute_isExecute (hr : r.registry.Filled) : r.IsExecute (r.execute (r.levels + 1)) :=
  fun _ _ scope => execute_succ hr (Nat.lt_succ_of_le (card_unused_le r scope))

/-- **Runs use the one function** that solves the recursion, for the levels that they begin with are
enough. -/
theorem executeFrom_eq_of_isExecute (hr : r.registry.Filled) (h : r.IsExecute execute)
    (recorded : List StepResult) (id : String) (persist : Bool) :
    r.executeFrom (r.execute r.levels) recorded w given (.root w.name id persist) =
      r.executeFrom execute recorded w given (.root w.name id persist) := by
  rw [h.eq hr (execute_isExecute hr)]
  refine executeFrom_congr (fun c workflow inputs t w' given' step ht => ?_) recorded
  obtain hless | hempty := prepare_lowers hr step ht
  · exact execute_succ hr (hless.trans_le (card_unused_le r _))
  · rw [execute_of_empty hempty, execute_of_empty hempty]

end Runner

end Stepflow
