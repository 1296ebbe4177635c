import Stepflow.Proofs.Run.Kinds

/-!
# Every step keeps account

The script of a step is its decorations around what its kind does with the steps inside it. The laws
of the kinds, put together by induction on steps, give two facts about every step: its script asks only
what its parts ask (`step_works`), and it keeps account (`step_keeps`), if the runs of workflows inside
steps do.
-/

namespace Stepflow

open Script

variable {κ : Type} {p : Inquiry κ → Prop}

namespace Runner

/-- A step, ready to be run. -/
def plan (r : Runner κ) (execute : Execute κ) (c : Context) (scope : Scope) (s : Step) : Planned κ :=
  ⟨s, r.step execute c scope s⟩

variable (r : Runner κ) (execute : Execute κ) (c : Context) (scope : Scope)

theorem step_eq (s : Step) : r.step execute c scope s =
    r.decorated c scope s (r.kindOf execute c scope s.name s.kind)
      (r.fallbackOf execute c scope s.onError) := by
  cases s
  rw [step]

theorem fallbackOf_eq (s : Option Step) :
    r.fallbackOf execute c scope s = s.map (r.plan execute c scope) := by
  cases s <;> rw [fallbackOf] <;> rfl

theorem optionsOf_eq (options : List (BranchOption Step)) : r.optionsOf execute c scope options =
    options.map fun o => (o.condition, r.plan execute c scope o.step) := by
  induction options with
  | nil => rw [optionsOf]; rfl
  | cons o rest ih =>
    cases o
    rw [optionsOf, ih]
    rfl

theorem membersOf_eq (members : List Step) :
    r.membersOf execute c scope members = members.map (r.plan execute c scope) := by
  induction members with
  | nil => rw [membersOf]; rfl
  | cons s rest ih =>
    rw [membersOf, ih]
    rfl

/-- In a list of different names none is repeated. -/
theorem firstRepeated?_eq_none {seen names : List String} (hn : names.Nodup)
    (hseen : ∀ n ∈ names, n ∉ seen) : firstRepeated? seen names = none := by
  induction names generalizing seen with
  | nil => rfl
  | cons n rest ih =>
    rw [firstRepeated?, if_neg (by simpa using hseen n List.mem_cons_self)]
    refine ih hn.of_cons fun m hm hmem => ?_
    obtain rfl | hmem := List.mem_cons.1 hmem
    · exact (List.nodup_cons.1 hn).1 hm
    · exact hseen m (List.mem_cons_of_mem _ hm) hmem

variable {r execute c scope}

/-! ## What steps ask -/

theorem attempting_works {x : StepScript κ Value} (hx : x.Works p) : (attempting x).Works p :=
  RunScript.Works.andThen hx fun _ => .done _

theorem branching_works {options : List (Expression × Planned κ)}
    (ho : ∀ o ∈ options, (o.2.runAs .option).Works p) : (branching c options).Works p := by
  induction options with
  | nil => exact .done _
  | cons o rest ih =>
    rw [branching]
    split
    · exact .done _
    · exact ih fun o ho' => ho o (List.mem_cons_of_mem _ ho')
    · exact (ho _ List.mem_cons_self).andThen fun _ => .done _

theorem recovering_works {fallback : Option (Planned κ)} {a : Attempt}
    (hf : ∀ f ∈ fallback, (f.runAs .fallback).Works p) : (recovering fallback a).Works p := by
  unfold recovering
  split
  · split
    · exact .done _
    · exact (hf _ rfl).andThen fun _ => .done _
  · exact .done _

theorem validating_works {stages : StepScript κ (Option StageFailure)} {fix : Option (Planned κ)}
    (hp : ∀ q : Inquiry κ, q.IsWork → p q) (hs : stages.Works p)
    (hf : ∀ f ∈ fix, ∀ k, (f.runAs (.fix k)).Works p) (left : Nat) (fixes : Fixes) :
    (validating stages fix left fixes).Works p := by
  induction left generalizing fixes with
  | zero =>
    rw [validating]
    refine RunScript.Works.andThen hs fun outcome => ?_
    split <;> exact .done _
  | succ left ih =>
    rw [validating]
    refine RunScript.Works.andThen hs fun outcome => ?_
    split
    · exact .done _
    · exact .done _
    · refine (RunScript.Works.isCancelled hp).andThen fun cancelled => ?_
      split
      · exact .done _
      · cases fix with
        | none => exact ih _
        | some f =>
          refine (hf f rfl _).andThen fun o => ?_
          dsimp only
          split
          · exact .done _
          · exact ih _

theorem grouping_works {members : List (Planned κ)}
    (hm : ∀ m ∈ members, ∀ k, (m.runAs (.member k)).Works p) : (grouping members).Works p := by
  unfold grouping
  split
  · exact .done _
  · have hall : ∀ s ∈ members.zipIdx.map fun m => m.1.runAs (.member m.2), RunScript.Works p s := by
      intro s hs
      obtain ⟨m, hmem, rfl⟩ := List.mem_map.1 hs
      exact hm m.1 (List.fst_mem_of_mem_zipIdx hmem) m.2
    refine RunScript.Works.andThen ⟨prompt_all fun s hs => (hall s hs).prompt, ?_⟩ fun _ => .done _
    exact asksOnly_all fun s hs => (hall s hs).asks

theorem runNested_works {step workflow : String} {inputs : Fields}
    (hp : ∀ q : Inquiry κ, q.IsWork → p q)
    (he : ∀ w inputs (scope : Scope), scope.persist = false →
      ((execute w inputs scope).under .run).Works p) :
    (r.runNested execute c scope step workflow inputs).Works p := by
  refine RunScript.Works.andThen
    ((RunScript.Works.compositional fun q hq => hp q hq.isWork).prepare r c scope workflow inputs)
    fun prepared => ?_
  split
  · exact .done _
  · refine (he _ _ _ rfl).andThen fun result => ?_
    split <;> exact .done _

/-- **What a kind of step asks** is its work and what the steps inside it ask. -/
theorem kindOf_works {name : String} {kind : StepKind Step} (hp : ∀ q : Inquiry κ, q.IsWork → p q)
    (hi : ∀ i ∈ kind.inner, ∀ l, l ≠ .run → ((r.plan execute c scope i).runAs l).Works p)
    (he : kind.RunsWorkflow → ∀ w inputs (scope : Scope), scope.persist = false →
      ((execute w inputs scope).under .run).Works p) :
    (r.kindOf execute c scope name kind).Works p := by
  have hcalls := RunScript.Works.compositional fun (q : Inquiry κ) (hq : q.IsCall) => hp q hq.isWork
  cases kind with
  | call action args kwargs =>
    rw [kindOf]
    exact attempting_works (hcalls.callAction r c action args kwargs)
  | agent agent inline builder =>
    rw [kindOf]
    exact attempting_works (hcalls.runAgent r c agent inline builder)
  | generate generator inline builder =>
    rw [kindOf]
    exact attempting_works (hcalls.runGenerator r c generator inline builder)
  | validate stages retry fix =>
    rw [kindOf, fallbackOf_eq]
    refine validating_works hp (hcalls.runStages r stages) (fun f hf k => ?_) _ _
    obtain ⟨i, hi', rfl⟩ := Option.map_eq_some_iff.1 hf
    exact hi i (Option.mem_toList.2 hi') _ nofun
  | subworkflow workflow inputs =>
    rw [kindOf]
    exact runNested_works hp (he ⟨workflow, inputs, rfl⟩)
  | branch options =>
    rw [kindOf, optionsOf_eq]
    refine branching_works fun o ho => ?_
    obtain ⟨b, hb, rfl⟩ := List.mem_map.1 ho
    exact hi _ (List.mem_map_of_mem hb) _ nofun
  | parallel members =>
    rw [kindOf, membersOf_eq]
    refine grouping_works fun m hm k => ?_
    obtain ⟨i, hi', rfl⟩ := List.mem_map.1 hm
    exact hi i hi' _ nofun

/-- No step waits before its first request, and so no try does. -/
theorem kindOf_prompt {name : String} {kind : StepKind Step}
    (hp : ∀ w inputs scope, (execute w inputs scope).Prompt) :
    (r.kindOf execute c scope name kind).Prompt := by
  have hworks : ∀ {α : Type} {x : RunScript κ α} (l : Layer), x.Prompt →
      RunScript.Works (fun _ => True) (x.under l) := fun l hx =>
    ⟨RunScript.prompt_under hx, asksOnly_of_forall (fun _ => trivial) _⟩
  refine (kindOf_works (fun _ _ => trivial) (fun i _ l _ => hworks l ?_)
    fun _ w inputs scope _ => hworks .run (hp w inputs scope)).prompt
  rw [plan, step_eq]
  trivial

theorem asksOnly_finish {s : Step} {began : Nat} {o : StepOutcome}
    (hnow : p { request := .now })
    (ht : ∀ result, p { step := some s, request := .tell (.stepCompleted scope.workflow result) }) :
    (finish scope s began o : RunScript κ StepOutcome).AsksOnly p := by
  refine AsksOnly.andThen ?_ fun _ => AsksOnly.andThen (asksOnly_request.2 (ht _)) fun _ => trivial
  exact (asksOnly_request.2 hnow).andThen fun _ => trivial

theorem asksOnly_retried {attempt : RunScript κ Attempt} {policy : Option RetryPolicy}
    (hp : ∀ q : Inquiry κ, q.IsWork → p q)
    (ha : ∀ k, (attempt.under (.attempt k)).AsksOnly p) : (r.retried policy attempt).AsksOnly p := by
  have hretrying : ∀ policy : RetryPolicy, ∀ left tries effects,
      (retrying (r.wait policy) attempt left tries effects).AsksOnly p := by
    intro policy left
    induction left with
    | zero => exact fun tries effects => (ha tries).andThen fun _ => trivial
    | succ left ih =>
      refine fun tries effects => (ha tries).andThen fun a => ?_
      dsimp only
      split
      · refine (asksOnly_wait (hp _ .jitter) (hp _ .now) r policy _).andThen fun cancelled => ?_
        split
        · trivial
        · exact ih _ _
      · trivial
  cases policy with
  | none => exact (ha 0).andThen fun _ => trivial
  | some policy => exact hretrying policy _ _ _

/-- **What a decorated step asks** is events of its own, the work of tries, what its kind asks in each
try, and what its fallback asks. -/
theorem asksOnly_decorated {s : Step} {attempt : RunScript κ Attempt} {fallback : Option (Planned κ)}
    (hp : ∀ q : Inquiry κ, q.IsWork → p q)
    (ht : ∀ e, e.IsOfStep → p { step := some s, request := .tell e })
    (ha : ∀ k, (attempt.under (.attempt k)).AsksOnly p)
    (hf : ∀ f ∈ fallback, (f.runAs .fallback).Works p) :
    (r.decorated c scope s attempt fallback).AsksOnly p := by
  have hend : ∀ {began : Nat} {o : StepOutcome},
      (finish scope s began o : RunScript κ StepOutcome).AsksOnly p :=
    asksOnly_finish (hp _ .now) fun _ => ht _ (.completed _ _)
  refine AsksOnly.andThen (asksOnly_request.2 (hp _ .now)) fun began => ?_
  split
  · exact hend
  · refine AsksOnly.andThen (asksOnly_request.2 (hp _ .isCancelled)) fun cancelled => ?_
    split
    · exact hend
    · refine AsksOnly.andThen (asksOnly_request.2 (ht _ (.started _ _ _))) fun _ => ?_
      refine (asksOnly_retried hp ha).andThen fun x => ?_
      exact (recovering_works hf).asks.andThen fun _ => hend

/-- **What a step asks.** Events of steps and the work of tries are asked for at any depth, and besides
them only what runs of workflows ask, if there are any. -/
theorem step_works {s : Step} (hp : ∀ q : Inquiry κ, q.IsWork → p q)
    (ht : ∀ s e, e.IsOfStep → p { step := some s, request := .tell e })
    (hl : ∀ (q : Inquiry κ) (l : Layer), l ≠ .run → p q → p (q.into l))
    (he : (∃ i ∈ s.subtree, i.kind.RunsWorkflow) → ∀ w inputs (scope : Scope), scope.persist = false →
      ((execute w inputs scope).under .run).Works p)
    (c : Context) (scope : Scope) : (r.step execute c scope s).Works p := by
  have hunder : ∀ {α : Type} {x : RunScript κ α} (l : Layer), l ≠ .run → x.Works p →
      (x.under l).Works p := fun l hne hx => .under ⟨hx.prompt, hx.asks.mono fun q => hl q l hne⟩
  induction s using Step.induction generalizing c scope with
  | h s ih =>
    have hinside : ∀ i ∈ s.nested, (r.step execute c scope i).Works p := fun i hi =>
      ih i hi (fun ⟨j, hj, hk⟩ => he ⟨j, Step.subtree_subset hi hj, hk⟩) c scope
    have hkind : (r.kindOf execute c scope s.name s.kind).Works p :=
      kindOf_works hp (fun i hi l hne => hunder l hne (hinside i (List.mem_append_left _ hi)))
        fun hk => he ⟨s, s.mem_subtree_self, hk⟩
    rw [step_eq, fallbackOf_eq]
    have htries : ∀ k, ((r.kindOf execute c scope s.name s.kind).under (.attempt k)).AsksOnly p :=
      fun k => (hunder (.attempt k) nofun hkind).asks
    refine ⟨trivial, asksOnly_decorated hp (ht s) htries fun f hf => ?_⟩
    obtain ⟨i, hi, rfl⟩ := Option.map_eq_some_iff.1 hf
    exact hunder .fallback nofun (hinside i (List.mem_append_right _ (Option.mem_toList.2 hi)))

/-- **At no layer a step speaks only of itself.** -/
theorem step_speaks_of_itself (s : Step) :
    (r.step execute c scope s).AsksOnly fun q => q.site = [] → ∀ i ∈ q.step, i = s := by
  have hinside : ∀ {α : Type} (x : RunScript κ α) (l : Layer), (x.under l).AsksOnly fun q =>
      q.site = [] → ∀ i ∈ q.step, i = s := fun x l =>
    RunScript.asksOnly_under (asksOnly_of_forall (fun _ h => absurd h (List.cons_ne_nil _ _)) x)
  rw [step_eq, fallbackOf_eq]
  refine asksOnly_decorated (fun q hq _ i hi => ?_) (fun e _ _ i hi => (Option.some.inj hi).symm)
    (fun k => hinside _ _) fun f hf => ⟨?_, hinside _ _⟩
  · cases hq <;> contradiction
  · obtain ⟨i, -, rfl⟩ := Option.map_eq_some_iff.1 hf
    refine RunScript.prompt_under ?_
    rw [plan, step_eq]
    trivial

/-! ## What steps keep -/

/-- **What a kind of step does** leaves what its children and effects say. -/
theorem kindOf_adds {s : Step} {t : Trace κ} {a : Attempt}
    (hi : ∀ i ∈ s.nested, i.Keeps r (r.step execute c scope i))
    (he : ∀ (w : Workflow) inputs scope, w.Keeps r (execute w inputs scope))
    (h : (r.kindOf execute c scope s.name s.kind).Traces t a) :
    s.Adds r (fun _ => True) t a.children a.effects := by
  have hfits : ∀ i ∈ s.kind.inner, (r.plan execute c scope i).Fits r s := fun i hm =>
    ⟨List.mem_append_left _ hm, hi i (List.mem_append_left _ hm)⟩
  have hcalls := RunScript.Works.compositional fun (q : Inquiry κ) (hq : q.IsCall) => hq.isWork.isQuiet
  cases hk : s.kind with
  | call action args kwargs =>
    rw [hk, kindOf] at h
    exact attempting_adds (hcalls.callAction r c action args kwargs) h
  | agent agent inline builder =>
    rw [hk, kindOf] at h
    exact attempting_adds (hcalls.runAgent r c agent inline builder) h
  | generate generator inline builder =>
    rw [hk, kindOf] at h
    exact attempting_adds (hcalls.runGenerator r c generator inline builder) h
  | validate stages retry fix =>
    rw [hk, kindOf, fallbackOf_eq] at h
    have hfix : ∀ f ∈ fix.map (r.plan execute c scope), f.Fits r s := fun f hf => by
      obtain ⟨i, hm, rfl⟩ := Option.map_eq_some_iff.1 hf
      exact hfits i (by rw [hk]; exact Option.mem_toList.2 hm)
    obtain ⟨children, e, hadds, hc, heff⟩ := validating_adds (hcalls.runStages r stages) hfix h
    rw [hc, heff]
    exact hadds.mono fun _ _ => trivial
  | subworkflow workflow inputs =>
    rw [hk, kindOf] at h
    exact (runNested_adds he hk h).mono fun _ _ => trivial
  | branch options =>
    rw [hk, kindOf, optionsOf_eq] at h
    refine (branching_adds (fun o ho => ?_) h).mono fun _ _ => trivial
    obtain ⟨b, hb, rfl⟩ := List.mem_map.1 ho
    exact hfits _ (by rw [hk]; exact List.mem_map_of_mem hb)
  | parallel members =>
    rw [hk, kindOf, membersOf_eq] at h
    refine (grouping_adds (fun m hm => ?_) h).mono fun _ _ => trivial
    obtain ⟨i, hi', rfl⟩ := List.mem_map.1 hm
    exact hfits i (by rw [hk]; exact hi')

/-- **Every step keeps account**, if the runs of workflows inside steps do. -/
theorem step_keeps (he : ∀ (w : Workflow) inputs scope, w.Keeps r (execute w inputs scope))
    (hp : ∀ (w : Workflow) inputs scope, (execute w inputs scope).Prompt) (s : Step) (c : Context)
    (scope : Scope) : s.Keeps r (r.step execute c scope s) := by
  induction s using Step.induction generalizing c scope with
  | h s ih =>
    rw [step_eq, fallbackOf_eq]
    refine decorated_keeps (kindOf_prompt hp)
      (fun t a h => kindOf_adds (fun i hi => ih i hi c scope) he h) fun f hf => ?_
    obtain ⟨i, hi, rfl⟩ := Option.map_eq_some_iff.1 hf
    have hm : i ∈ s.nested := List.mem_append_right _ (Option.mem_toList.2 hi)
    exact ⟨hm, ih i hm c scope⟩

end Runner

end Stepflow
