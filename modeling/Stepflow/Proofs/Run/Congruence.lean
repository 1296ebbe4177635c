import Stepflow.Proofs.Run.Gist
import Stepflow.Proofs.Run.Step

/-!
# Runs that come to the same

What it is for two runs to come to the same can be said in several ways, by what they ask and how they are
answered, or by what they end with. However it is said, what holds of the parts of a run should hold of
the run. A `Congruence` is a relation of scripts for which this is so: it goes through every way in which
scripts are put together, clocks and identifiers may be any, and whatever else a script is told leads on
alike.

A script is steady up to a function of its result if it is alike itself. Every step is steady up to times,
for any congruence, if the runs inside steps are (`Congruence.step_steady`).
-/

namespace Stepflow

open Script

variable {κ : Type} {α β γ δ : Type}

/-- **A congruence of scripts** relates scripts by a relation of their results, and goes from parts to
wholes. -/
structure Congruence (κ : Type) where
  /-- The scripts are alike up to a relation of their results. -/
  Alike {α β : Type} : (α → β → Prop) → RunScript κ α → RunScript κ β → Prop
  /-- Whether checkpoints are saved alike. -/
  Saves : Prop
  done {α β : Type} {R : α → β → Prop} {a : α} {b : β} : R a b → Alike R (.done a) (.done b)
  andThen {α β γ δ : Type} {R : α → β → Prop} {S : γ → δ → Prop} {s : RunScript κ α}
    {s' : RunScript κ β} {f : α → RunScript κ γ} {f' : β → RunScript κ δ} :
    Alike R s s' → (∀ a b, R a b → Alike S (f a) (f' b)) → Alike S (s.andThen f) (s'.andThen f')
  under {α β : Type} {R : α → β → Prop} {s : RunScript κ α} {s' : RunScript κ β} {l : Layer} :
    Alike R s s' → Alike R (s.under l) (s'.under l)
  /-- Requests of one gist may be answered in any way, if no one looks at the answer. -/
  request (q q' : Inquiry κ) : q.gist = q'.gist →
    Alike (fun _ _ => True) (Script.request q) (Script.request q')
  isCancelled : Alike (· = ·) RunScript.isCancelled RunScript.isCancelled
  /-- Components that are given the same reply the same. -/
  call (space : Namespace) (name : String) (component : κ) (input : Input) :
    Alike (· = ·) (RunScript.call space name component input) (RunScript.call space name component input)
  /-- Sleeps end alike, whenever they do. -/
  sleepUntil (deadline deadline' : Nat) :
    Alike (· = ·) (Script.sleepUntil deadline) (Script.sleepUntil deadline')
  /-- Side by side scripts stay alike. -/
  all {α β : Type} {R : α → β → Prop} {ss : List (RunScript κ α)} {ss' : List (RunScript κ β)} :
    List.Forall₂ (Alike R) ss ss' → Alike (List.Forall₂ R) (Script.all ss) (Script.all ss')
  save {run : String} {c c' : Checkpoint} : Saves →
    (Request.save run c : Request κ).gist = (Request.save run c').gist →
    Alike (· = ·) (RunScript.request (.save run c)) (RunScript.request (.save run c'))

/-- What a refused run says, or what another came to without times. -/
def Runner.executionGist (x : Except Refusal Execution) : Except Refusal Execution :=
  x.map Execution.gist

namespace Congruence

variable (C : Congruence κ) {R R' : α → β → Prop} {f : α → β} {g : γ → δ}

theorem mono {s : RunScript κ α} {s' : RunScript κ β} (hs : C.Alike R s s')
    (h : ∀ a b, R a b → R' a b) : C.Alike R' s s' := by
  have hdone := C.andThen hs fun a b hab => C.done (h a b hab)
  rwa [andThen_done, andThen_done] at hdone

/-- **A script is steady**: it is alike itself, up to `f`. -/
def Steady (f : α → β) (s : RunScript κ α) : Prop := C.Alike (fun a b => f a = f b) s s

/-- Clocks may be any. -/
theorem now : C.Alike (fun _ _ => True) (RunScript.now : RunScript κ Nat) RunScript.now :=
  C.request { request := .now } { request := .now } rfl

theorem millisecondsSince (start start' : Nat) : C.Alike (fun _ _ => True)
    (RunScript.millisecondsSince start : RunScript κ Nat) (RunScript.millisecondsSince start') :=
  C.andThen C.now fun _ _ _ => C.done trivial

/-- Events of the same gist are told alike. -/
theorem tell {e e' : Event} (h : e.gist = e'.gist) :
    C.Alike (fun _ _ => True) (RunScript.tell e : RunScript κ Unit) (RunScript.tell e') :=
  C.request { request := .tell e } { request := .tell e' }
    (congrArg (fun e => Inquiry.mk [] none (Request.tell e)) h)

theorem tellOf (s : Step) {e e' : Event} (h : e.gist = e'.gist) :
    C.Alike (fun _ _ => True) (RunScript.tellOf s e : RunScript κ Unit) (RunScript.tellOf s e') :=
  C.request { step := some s, request := .tell e } { step := some s, request := .tell e' }
    (congrArg (fun e => Inquiry.mk [] (some s) (Request.tell e)) h)

variable {C}

namespace Steady

theorem done (a : α) : C.Steady f (.done a) := C.done rfl

theorem andThen {s : RunScript κ α} {k : α → RunScript κ γ} (hs : C.Steady f s)
    (hk : ∀ a b, f a = f b → C.Alike (fun c d => g c = g d) (k a) (k b)) : C.Steady g (s.andThen k) :=
  C.andThen hs hk

/-- Where the result is the same, nothing else matters for what follows. -/
theorem andThen_eq {s : RunScript κ α} {k : α → RunScript κ γ} (hs : C.Steady id s)
    (hk : ∀ a, C.Steady g (k a)) : C.Steady g (s.andThen k) :=
  hs.andThen fun a b (hab : a = b) => hab ▸ hk a

theorem under {s : RunScript κ α} (hs : C.Steady f s) (l : Layer) : C.Steady f (s.under l) := C.under hs

theorem isCancelled : C.Steady id RunScript.isCancelled := C.isCancelled

theorem tell (e : Event) : C.Steady id (RunScript.tell e) := C.mono (C.tell rfl) fun _ _ _ => rfl

/-- What is put together from component calls is steady. -/
theorem compositional : RunScript.Compositional fun α (s : RunScript κ α) => C.Steady id s where
  done := done
  andThen := andThen_eq
  defer e := C.mono (C.request { request := .defer e } { request := .defer e } rfl) fun _ _ _ => rfl
  call := C.call

end Steady

open Runner

variable {r : Runner κ} {c : Context} {scope : Scope} {execute : Execute κ}

/-! ## What each kind of step does -/

theorem attempting_steady {x : StepScript κ Value} (hx : C.Steady id x.run) :
    C.Steady Attempt.gist (attempting x) := hx.andThen_eq fun _ => .done _

theorem branching_steady {options : List (Expression × Planned κ)}
    (hm : ∀ o ∈ options, C.Steady StepOutcome.gist o.2.run) :
    C.Steady Attempt.gist (branching c options) := by
  induction options with
  | nil => exact .done _
  | cons o rest ih =>
    rw [branching]
    split
    · exact .done _
    · exact ih fun o ho => hm o (List.mem_cons_of_mem _ ho)
    · refine ((hm _ List.mem_cons_self).under _).andThen fun a b hab => C.done ?_
      rw [Attempt.ofOption_gist, Attempt.ofOption_gist, hab]

/-- A fallback after tries that came to the same. -/
theorem recovering_alike {fallback : Option (Planned κ)}
    (hf : ∀ f ∈ fallback, C.Steady StepOutcome.gist f.run) {a b : Attempt} (hab : a.gist = b.gist) :
    C.Alike (fun a b => a.gist = b.gist) (recovering fallback a) (recovering fallback b) := by
  obtain ⟨houtcome, -⟩ := Attempt.mk.inj hab
  unfold recovering
  rw [houtcome]
  split
  · split
    · exact C.done hab
    · refine C.andThen ((hf _ rfl).under _) fun o o' ho => C.done ?_
      rw [Attempt.recovered_gist, Attempt.recovered_gist, hab, ho]
  · exact C.done hab

theorem wait_steady (policy : RetryPolicy) (tries : Nat) : C.Steady id (r.wait policy tries) :=
  C.andThen (C.request { request := .jitter } { request := .jitter } rfl) fun _ _ _ =>
    C.andThen C.now fun _ _ _ => C.sleepUntil _ _

/-- The last of some tries, without times, and their number. -/
def triedGist (x : Attempt × Nat) : Attempt × Nat := (x.1.gist, x.2)

theorem retrying_steady {wait : Nat → RunScript κ Bool} {attempt : RunScript κ Attempt}
    (hw : ∀ n, C.Steady id (wait n)) (ha : C.Steady Attempt.gist attempt) (left tries : Nat)
    (effects : Effects) : C.Steady triedGist (retrying wait attempt left tries effects) := by
  induction left generalizing tries effects with
  | zero =>
    refine (ha.under _).andThen fun a b hab => C.done ?_
    obtain ⟨houtcome, hfixes, hchildren, heffects⟩ := Attempt.mk.inj hab
    show Prod.mk (Attempt.mk _ _ _ _) _ = Prod.mk (Attempt.mk _ _ _ _) _
    rw [houtcome, hfixes, hchildren, heffects]
  | succ left ih =>
    refine (ha.under _).andThen fun a b hab => ?_
    obtain ⟨houtcome, hfixes, hchildren, heffects⟩ := Attempt.mk.inj hab
    have hfailure : a.isFailure = b.isFailure := by rw [Attempt.isFailure, houtcome, Attempt.isFailure]
    -- whether to try again is decided by the outcome, which the gist keeps
    dsimp only
    rw [hfailure, heffects]
    split
    · refine C.andThen (hw _) fun cancelled cancelled' hc => ?_
      obtain rfl : cancelled = cancelled' := hc
      split
      · refine C.done ?_
        show Prod.mk (Attempt.mk _ _ _ _) _ = Prod.mk (Attempt.mk _ _ _ _) _
        rw [hchildren]
      · exact ih _ _
    · refine C.done ?_
      show Prod.mk (Attempt.mk _ _ _ _) _ = Prod.mk (Attempt.mk _ _ _ _) _
      rw [houtcome, hfixes, hchildren]

theorem retried_steady {policy : Option RetryPolicy} {attempt : RunScript κ Attempt}
    (ha : C.Steady Attempt.gist attempt) : C.Steady triedGist (r.retried policy attempt) := by
  cases policy with
  | none => exact (ha.under _).andThen fun a b hab => C.done (congrArg (Prod.mk · 1) hab)
  | some p => exact retrying_steady (wait_steady p) ha _ _ _

/-- Validations that have made fixes that came to the same. -/
theorem validating_alike {stages : StepScript κ (Option StageFailure)} {fix : Option (Planned κ)}
    (hs : C.Steady id stages.run) (hf : ∀ f ∈ fix, C.Steady StepOutcome.gist f.run) {left : Nat}
    {fixes fixes' : Fixes} (hfixes : fixes.gist = fixes'.gist) :
    C.Alike (fun a b => a.gist = b.gist) (validating stages fix left fixes)
      (validating stages fix left fixes') := by
  -- what a validation ends with depends on the gist of its fixes only
  have hbroken : ∀ {f f' : Fixes} (e : StepError), f.gist = f'.gist →
      (f.brokenOff e).gist = (f'.brokenOff e).gist := fun e hff => by
    rw [Fixes.brokenOff_gist, Fixes.brokenOff_gist, hff]
  have hconcluded : ∀ {f f' : Fixes} (outcome : Except StepError Value), f.gist = f'.gist →
      (f.concluded outcome).gist = (f'.concluded outcome).gist := fun e hff => by
    rw [Fixes.concluded_gist, Fixes.concluded_gist, hff]
  induction left generalizing fixes fixes' with
  | zero =>
    have hcount : fixes.count = fixes'.count := (Fixes.mk.inj hfixes).1
    rw [validating, validating, hcount]
    refine C.andThen hs fun x y hxy => ?_
    obtain rfl : x = y := hxy
    split
    · exact C.done (hbroken _ hfixes)
    · exact C.done (hconcluded _ hfixes)
    · exact C.done (hconcluded _ hfixes)
  | succ left ih =>
    have hcount : fixes.count = fixes'.count := (Fixes.mk.inj hfixes).1
    rw [validating, validating, hcount]
    refine C.andThen hs fun x y hxy => ?_
    obtain rfl : x = y := hxy
    split
    · exact C.done (hbroken _ hfixes)
    · exact C.done (hconcluded _ hfixes)
    · refine C.andThen C.isCancelled fun cancelled cancelled' hc => ?_
      obtain rfl : cancelled = cancelled' := hc
      split
      · exact C.done (hbroken _ hfixes)
      · cases fix with
        | none =>
          refine ih ?_
          rw [Fixes.afterNothing_gist, Fixes.afterNothing_gist, hfixes]
        | some f =>
          refine C.andThen ((hf f rfl).under _) fun o o' hoo => ?_
          have hafter : (fixes.after o).gist = (fixes'.after o').gist := by
            rw [Fixes.after_gist, Fixes.after_gist, hfixes, hoo]
          have hstatus := StepResult.status_of_gist (StepOutcome.mk.inj hoo).1
          dsimp only
          rw [hstatus]
          split
          · exact C.done (hbroken _ hafter)
          · exact ih hafter

/-- **A group** runs its members side by side. -/
theorem grouping_steady {members : List (Planned κ)}
    (hm : ∀ m ∈ members, C.Steady StepOutcome.gist m.run) :
    C.Steady Attempt.gist (grouping members) := by
  unfold grouping
  split
  · exact .done _
  · have hall : List.Forall₂ (C.Alike fun a b => a.gist = b.gist)
        (members.zipIdx.map fun m => m.1.runAs (.member m.2))
        (members.zipIdx.map fun m => m.1.runAs (.member m.2)) := by
      rw [List.forall₂_map_left_iff, List.forall₂_map_right_iff, List.forall₂_same]
      exact fun m hmem => (hm m.1 (List.fst_mem_of_mem_zipIdx hmem)).under _
    refine C.andThen (C.all hall) fun os os' hos => C.done ?_
    have hgists : os.map StepOutcome.gist = os'.map StepOutcome.gist := by
      rw [← List.forall₂_eq_eq_eq, List.forall₂_map_left_iff, List.forall₂_map_right_iff]
      exact hos
    rw [Attempt.ofMembers_gist, Attempt.ofMembers_gist, hgists]

/-- **The runs inside steps are steady**: those that save no checkpoints. -/
def Nests (C : Congruence κ) (execute : Execute κ) : Prop :=
  ∀ w inputs scope, scope.persist = false → C.Steady executionGist (execute w inputs scope)

theorem runNested_steady (he : C.Nests execute) (step workflow : String) (inputs : Fields) :
    C.Steady Attempt.gist (r.runNested execute c scope step workflow inputs) := by
  refine Steady.andThen_eq (Steady.compositional.prepare r c scope workflow inputs) fun prepared => ?_
  split
  · exact .done _
  · refine ((he _ _ _ rfl).under _).andThen fun x y hxy => ?_
    cases x with
    | error e =>
      cases y with
      | error e' =>
        injection hxy with he
        subst he
        exact C.done rfl
      | ok y => contradiction
    | ok x =>
      cases y with
      | error e => contradiction
      | ok y =>
        injection hxy with hxy
        refine C.done ?_
        rw [Execution.attempt_gist, Execution.attempt_gist, hxy]

/-! ## Steps -/

/-- The end of a step takes the time, which the gist of its result leaves out. -/
theorem finish_alike (s : Step) (began began' : Nat) {o o' : StepOutcome} (hoo : o.gist = o'.gist) :
    C.Alike (fun a b => a.gist = b.gist) (finish scope s began o) (finish scope s began' o') := by
  obtain ⟨hresult, heffects⟩ := StepOutcome.mk.inj hoo
  refine C.andThen (C.millisecondsSince began began') fun d d' _ => ?_
  have hgist : { o.result with durationMs := d }.gist = { o'.result with durationMs := d' }.gist := by
    rw [StepResult.gist_durationMs, StepResult.gist_durationMs, hresult]
  have hevent : (Event.stepCompleted scope.workflow { o.result with durationMs := d }).gist =
      (Event.stepCompleted scope.workflow { o'.result with durationMs := d' }).gist :=
    congrArg (Event.stepCompleted scope.workflow) hgist
  refine C.andThen (C.tellOf s hevent) fun _ _ _ => C.done ?_
  show StepOutcome.mk _ _ = StepOutcome.mk _ _
  rw [hgist, heffects]

/-- **The decorations of a step** are steady if what is inside is. -/
theorem decorated_steady {s : Step} {attempt : RunScript κ Attempt} {fallback : Option (Planned κ)}
    (ha : C.Steady Attempt.gist attempt)
    (hf : ∀ f ∈ fallback, C.Steady StepOutcome.gist f.run) :
    C.Steady StepOutcome.gist (r.decorated c scope s attempt fallback) := by
  refine C.andThen C.now fun began began' _ => ?_
  split
  · exact finish_alike s _ _ rfl
  · refine C.andThen C.isCancelled fun cancelled cancelled' hc => ?_
    obtain rfl : cancelled = cancelled' := hc
    split
    · exact finish_alike s _ _ rfl
    · refine C.andThen (C.tellOf s rfl) fun _ _ _ => ?_
      refine C.andThen (retried_steady ha) fun ⟨a, tries⟩ ⟨b, tries'⟩ hab => ?_
      obtain ⟨hab, rfl⟩ := Prod.mk.inj hab
      refine C.andThen (recovering_alike hf hab) fun a' b' hab' => finish_alike s _ _ ?_
      rw [Step.conclude_gist, Step.conclude_gist, hab']

/-- **Every step is steady**, if the runs of workflows inside steps are. -/
theorem step_steady (he : C.Nests execute) (s : Step) (c : Context) (scope : Scope) :
    C.Steady StepOutcome.gist (r.step execute c scope s) := by
  have hcalls : RunScript.Compositional fun α (s : RunScript κ α) => C.Steady id s :=
    Steady.compositional
  induction s using Step.induction generalizing c scope with
  | h s ih =>
    have hinner : ∀ i ∈ s.kind.inner, C.Steady StepOutcome.gist (r.plan execute c scope i).run :=
      fun i hi => ih i (List.mem_append_left _ hi) c scope
    rw [step_eq, fallbackOf_eq]
    refine decorated_steady ?_ fun f hf => ?_
    · cases hk : s.kind with
      | call action args kwargs =>
        rw [kindOf]
        exact attempting_steady (hcalls.callAction r c action args kwargs)
      | agent agent inline builder =>
        rw [kindOf]
        exact attempting_steady (hcalls.runAgent r c agent inline builder)
      | generate generator inline builder =>
        rw [kindOf]
        exact attempting_steady (hcalls.runGenerator r c generator inline builder)
      | validate stages retry fix =>
        rw [kindOf, fallbackOf_eq]
        refine validating_alike (hcalls.runStages r stages) (fun f hf => ?_) rfl
        obtain ⟨i, hi, rfl⟩ := Option.map_eq_some_iff.1 hf
        exact hinner i (by rw [hk]; exact Option.mem_toList.2 hi)
      | subworkflow workflow inputs =>
        rw [kindOf]
        exact runNested_steady he _ _ _
      | branch options =>
        rw [kindOf, optionsOf_eq]
        refine branching_steady fun o ho => ?_
        obtain ⟨b, hb, rfl⟩ := List.mem_map.1 ho
        exact hinner b.step (by rw [hk]; exact List.mem_map_of_mem hb)
      | parallel members =>
        rw [kindOf, membersOf_eq]
        refine grouping_steady fun m hm => ?_
        obtain ⟨i, hi, rfl⟩ := List.mem_map.1 hm
        exact hinner i (by rw [hk]; exact hi)
    · obtain ⟨i, hi, rfl⟩ := Option.map_eq_some_iff.1 hf
      exact ih i (List.mem_append_right _ (Option.mem_toList.2 hi)) c scope

end Congruence

end Stepflow
