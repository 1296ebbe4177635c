import Stepflow.Proofs.Run.Course
import Stepflow.Proofs.Run.Tries

/-!
# The parts of a run

What happens at a site of a run is a run of a workflow, a step, or a try of one, by the last layer of
the site (`Layer.role`), and nothing else: no two parts share a layer. `Part` names the scripts that
these are, `Trace.Splits` says that a trace holds one part in each of its layers, and every builder of
scripts is shown to split its trace. So by induction on sites the trace of a run holds a part at every
site where anything happens (`Part.inside`), and the workflow and the scope of the part are those of the
run around it, or of one that a step of that run started (`Enters`).
-/

namespace Stepflow

open Script

variable {κ : Type} {r : Runner κ} {c : Context} {scope scope' scope'' : Scope} {t u v : Trace κ}
  {w w' w'' : Workflow} {s : Step} {site : Site}

/-! ## Traces by layers -/

/-- **What happens in each layer of the trace** is one thing of a kind, and the layers are among
certain ones. -/
def Trace.Splits (P : Layer → Trace κ → Prop) (among : Layer → Prop) (t : Trace κ) : Prop :=
  ∀ l ∈ t.layers, among l ∧ P l (t.within l)

namespace Trace.Splits

variable {P : Layer → Trace κ → Prop} {among among' : Layer → Prop}

theorem of_layers (h : t.layers = []) : t.Splits P among := by
  intro l hl
  rw [h] at hl
  contradiction

theorem into {l : Layer} (hl : among l) (h : P l t) : (t.into l).Splits P among := by
  intro m hm
  obtain rfl := mem_layers_into hm
  rw [within_into_self]
  exact ⟨hl, h⟩

theorem mono (h : t.Splits P among) (hm : ∀ l, among l → among' l) : t.Splits P among' :=
  fun l hl => ⟨hm l (h l hl).1, (h l hl).2⟩

/-- Where the layers are apart, an interleaving has the parts of both. -/
theorem interleaving (ht : t.Splits P among) (hu : u.Splits P among')
    (hne : ∀ l, among l → ¬ among' l) (h : Interleaving t u v) :
    v.Splits P fun l => among l ∨ among' l := by
  intro l hl
  obtain hl | hl := h.mem_layers.1 hl
  · have hapart : l ∉ u.layers := fun hm => hne l (ht l hl).1 (hu l hm).1
    rw [h.within_left hapart]
    exact ⟨.inl (ht l hl).1, (ht l hl).2⟩
  · have hapart : l ∉ t.layers := fun hm => hne l (ht l hm).1 (hu l hl).1
    rw [h.within_right hapart]
    exact ⟨.inr (hu l hl).1, (hu l hl).2⟩

theorem append (ht : t.Splits P among) (hu : u.Splits P among')
    (hne : ∀ l, among l → ¬ among' l) : (t ++ u).Splits P fun l => among l ∨ among' l :=
  ht.interleaving hu hne (.append t u)

/-- What is at no layer changes no part. -/
theorem append_bare (ht : t.Splits P among) (hu : u.layers = []) : (t ++ u).Splits P among :=
  (ht.append (of_layers hu : u.Splits P fun _ => False) fun _ _ => id).mono fun _ h =>
    h.resolve_right id

theorem bare_append (ht : t.layers = []) (hu : u.Splits P among) : (t ++ u).Splits P among :=
  ((of_layers ht : t.Splits P fun _ => False).append hu fun _ h => h.elim).mono fun _ h =>
    h.resolve_left id

end Trace.Splits

/-- A script that asks at no layer leaves no layer. -/
theorem Trace.layers_of_asksOnly {α : Type} {x : RunScript κ α} {a : α}
    (hx : x.AsksOnly fun q => q.site = []) (ht : x.Traces t a) : t.layers = [] :=
  List.filterMap_eq_nil_iff.2 fun e he => by rw [hx.of_traces ht e he]; rfl

namespace Runner

variable {P : Layer → Trace κ → Prop}

theorem IsWork_site {q : Inquiry κ} (hq : q.IsWork) : q.site = [] := by
  cases hq <;> rfl

/-! ## What each builder splits -/

theorem retrying_splits {policy : RetryPolicy} {attempt : RunScript κ Attempt}
    (ha : ∀ u a, attempt.Traces u a → ∀ k, P (.attempt k) u) {left tries n : Nat} {effects : Effects}
    {a : Attempt} (h : (retrying (r.wait policy) attempt left tries effects).Traces t (a, n)) :
    t.Splits P (tryFrom tries) := by
  induction left generalizing tries effects t with
  | zero =>
    obtain ⟨t₁, t₂, b, h₁, h₂, rfl⟩ := traces_andThen.1 h
    obtain ⟨rfl, -, -⟩ := traces_done_pair.1 h₂
    obtain ⟨v, hv, rfl⟩ := RunScript.traces_under.1 h₁
    rw [List.append_nil]
    exact .into ⟨tries, Nat.le_refl _, rfl⟩ (ha v b hv tries)
  | succ left ih =>
    obtain ⟨t₁, t₂, b, h₁, h₂, rfl⟩ := traces_andThen.1 h
    obtain ⟨v, hv, rfl⟩ := RunScript.traces_under.1 h₁
    have hfirst : (v.into (.attempt tries)).Splits P (· = .attempt tries) :=
      .into rfl (ha v b hv tries)
    have hfrom : ∀ l, l = .attempt tries → tryFrom tries l := fun l hl => ⟨tries, Nat.le_refl _, hl⟩
    dsimp only at h₂
    split at h₂
    · obtain ⟨t₃, t₄, cancelled, h₃, h₄, rfl⟩ := traces_andThen.1 h₂
      have hwait : Trace.layers t₃ = [] :=
        Trace.layers_of_asksOnly (asksOnly_wait (IsWork_site .jitter) (IsWork_site .now) r policy _) h₃
      split at h₄
      · obtain ⟨rfl, -, -⟩ := traces_done_pair.1 h₄
        rw [List.append_nil]
        exact (hfirst.append_bare hwait).mono hfrom
      · -- later tries have greater numbers
        refine (hfirst.append (.bare_append hwait (ih h₄)) ?_).mono ?_
        · rintro l rfl ⟨k, hk, hl⟩
          injection hl with hl
          omega
        · rintro l (hl | ⟨k, hk, rfl⟩)
          · exact hfrom l hl
          · exact ⟨k, by omega, rfl⟩
    · obtain ⟨rfl, -, -⟩ := traces_done_pair.1 h₂
      rw [List.append_nil]
      exact hfirst.mono hfrom

theorem retried_splits {policy : Option RetryPolicy} {attempt : RunScript κ Attempt}
    (ha : ∀ u a, attempt.Traces u a → ∀ k, P (.attempt k) u) {a : Attempt} {n : Nat}
    (h : (r.retried policy attempt).Traces t (a, n)) : t.Splits P (tryFrom 0) := by
  cases policy with
  | none =>
    obtain ⟨v, hv, rfl⟩ := retried_none h
    exact .into ⟨0, Nat.le_refl _, rfl⟩ (ha v a hv 0)
  | some p => exact retrying_splits ha h

theorem recovering_splits {fallback : Option (Planned κ)}
    (hf : ∀ f ∈ fallback, ∀ u o, f.run.Traces u o → P .fallback u) {a a' : Attempt}
    (h : (recovering fallback a).Traces t a') : t.Splits P (· = .fallback) := by
  unfold recovering at h
  split at h
  · rename_i f e _
    split at h
    · obtain ⟨rfl, -⟩ := traces_done.1 h
      exact .of_layers rfl
    · obtain ⟨t₁, t₂, o, h₁, h₂, rfl⟩ := traces_andThen.1 h
      obtain ⟨rfl, -⟩ := traces_done.1 h₂
      obtain ⟨v, hv, rfl⟩ := RunScript.traces_under.1 h₁
      rw [List.append_nil]
      exact .into rfl (hf f rfl v o hv)
  · obtain ⟨rfl, -⟩ := traces_done.1 h
    exact .of_layers rfl

theorem branching_splits {options : List (Expression × Planned κ)}
    (ho : ∀ o ∈ options, ∀ u x, o.2.run.Traces u x → P .option u) {a : Attempt}
    (h : (branching c options).Traces t a) : t.Splits P (· = .option) := by
  induction options with
  | nil =>
    obtain ⟨rfl, -⟩ := traces_done.1 h
    exact .of_layers rfl
  | cons o rest ih =>
    obtain ⟨condition, option⟩ := o
    rw [branching] at h
    split at h
    · obtain ⟨rfl, -⟩ := traces_done.1 h
      exact .of_layers rfl
    · exact ih (fun o ho' => ho o (List.mem_cons_of_mem _ ho')) h
    · obtain ⟨t₁, t₂, o, h₁, h₂, rfl⟩ := traces_andThen.1 h
      obtain ⟨rfl, -⟩ := traces_done.1 h₂
      obtain ⟨v, hv, rfl⟩ := RunScript.traces_under.1 h₁
      rw [List.append_nil]
      exact .into rfl (ho _ List.mem_cons_self v o hv)

theorem validating_splits {stages : StepScript κ (Option StageFailure)} {fix : Option (Planned κ)}
    (hs : stages.run.AsksOnly fun q => q.site = [])
    (hf : ∀ f ∈ fix, ∀ u o, f.run.Traces u o → ∀ k, P (.fix k) u) {left : Nat} {fixes : Fixes}
    {a : Attempt} (h : (validating stages fix left fixes).Traces t a) :
    t.Splits P (fixFrom fixes.count) := by
  induction left generalizing fixes t with
  | zero =>
    rw [validating] at h
    obtain ⟨t₁, t₂, outcome, h₁, h₂, rfl⟩ := traces_andThen.1 h
    have hstages : Trace.layers t₁ = [] := Trace.layers_of_asksOnly hs h₁
    split at h₂ <;> obtain ⟨rfl, -⟩ := traces_done.1 h₂ <;> rw [List.append_nil] <;>
      exact .of_layers hstages
  | succ left ih =>
    rw [validating] at h
    obtain ⟨t₁, t₂, outcome, h₁, h₂, rfl⟩ := traces_andThen.1 h
    refine .bare_append (Trace.layers_of_asksOnly hs h₁) ?_
    split at h₂
    · obtain ⟨rfl, -⟩ := traces_done.1 h₂
      exact .of_layers rfl
    · obtain ⟨rfl, -⟩ := traces_done.1 h₂
      exact .of_layers rfl
    · obtain ⟨t₃, t₄, cancelled, h₃, h₄, rfl⟩ := traces_andThen.1 h₂
      obtain rfl := RunScript.traces_ofRequest.1 h₃
      refine .bare_append rfl ?_
      split at h₄
      · obtain ⟨rfl, -⟩ := traces_done.1 h₄
        exact .of_layers rfl
      · cases fix with
        | none =>
          refine (ih h₄).mono ?_
          rintro l ⟨k, hk, rfl⟩
          exact ⟨k, by simp only [Fixes.afterNothing] at hk; omega, rfl⟩
        | some f =>
          obtain ⟨t₅, t₆, o, h₅, h₆, rfl⟩ := traces_andThen.1 h₄
          obtain ⟨v, hv, rfl⟩ := RunScript.traces_under.1 h₅
          have hfix : (v.into (.fix fixes.count)).Splits P (· = .fix fixes.count) :=
            .into rfl (hf f rfl v o hv _)
          have hfrom : ∀ l, l = .fix fixes.count → fixFrom fixes.count l :=
            fun l hl => ⟨_, Nat.le_refl _, hl⟩
          split at h₆
          · obtain ⟨rfl, -⟩ := traces_done.1 h₆
            rw [List.append_nil]
            exact hfix.mono hfrom
          · refine (hfix.append (ih h₆) ?_).mono ?_
            · rintro l rfl ⟨k, hk, hl⟩
              injection hl with hl
              simp only [Fixes.after] at hk
              omega
            · rintro l (hl | ⟨k, hk, rfl⟩)
              · exact hfrom l hl
              · exact ⟨k, by simp only [Fixes.after] at hk; omega, rfl⟩

theorem members_split {members : List (Planned κ)}
    (hm : ∀ m ∈ members, ∀ u o, m.run.Traces u o → ∀ k, P (.member k) u) {index : Nat}
    {os : List StepOutcome}
    (h : TracesAll ((members.zipIdx index).map fun m => m.1.runAs (.member m.2)) t os) :
    t.Splits P (memberFrom index) := by
  induction members generalizing index t os with
  | nil =>
    cases h
    exact .of_layers rfl
  | cons m rest ih =>
    rw [List.zipIdx_cons, List.map_cons] at h
    obtain _ | ⟨h₁, h₂, i⟩ := h
    obtain ⟨v, hv, rfl⟩ := RunScript.traces_under.1 h₁
    have hfirst : (v.into (.member index)).Splits P (· = .member index) :=
      .into rfl (hm m List.mem_cons_self v _ hv index)
    have hrest := ih (fun m hm' => hm m (List.mem_cons_of_mem _ hm')) h₂
    refine (hfirst.interleaving hrest ?_ i).mono ?_
    · rintro l rfl ⟨k, hk, hl⟩
      injection hl with hl
      omega
    · rintro l (rfl | ⟨k, hk, rfl⟩)
      · exact ⟨index, Nat.le_refl _, rfl⟩
      · exact ⟨k, by omega, rfl⟩

theorem grouping_splits {members : List (Planned κ)}
    (hm : ∀ m ∈ members, ∀ u o, m.run.Traces u o → ∀ k, P (.member k) u) {a : Attempt}
    (h : (grouping members).Traces t a) : t.Splits P (memberFrom 0) := by
  unfold grouping at h
  split at h
  · obtain ⟨rfl, -⟩ := traces_done.1 h
    exact .of_layers rfl
  · obtain ⟨t₁, t₂, os, h₁, h₂, rfl⟩ := traces_andThen.1 h
    obtain ⟨rfl, -⟩ := traces_done.1 h₂
    rw [List.append_nil]
    exact members_split hm (.of_all h₁)

/-- **The run of a workflow inside a step** is of one that the step may run. -/
theorem runNested_splits {execute : Execute κ} {step workflow : String} {inputs : Fields}
    (he : ∀ w given u y v, (r.prepare c scope workflow inputs).run.Traces v (.ok (w, given)) →
      (execute w given (scope.nested w.name step)).Traces u y → u ≠ [] → P .run u) {a : Attempt}
    (h : (r.runNested execute c scope step workflow inputs).Traces t a) :
    t.Splits P (· = .run) := by
  obtain ⟨t₁, t₂, prepared, h₁, h₂, rfl⟩ := traces_andThen.1 h
  have hprepare : Trace.layers t₁ = [] := Trace.layers_of_asksOnly
    ((RunScript.Works.compositional fun _ hq => IsWork_site hq.isWork).prepare r c scope workflow
      inputs).asks h₁
  refine .bare_append hprepare ?_
  split at h₂
  · obtain ⟨rfl, -⟩ := traces_done.1 h₂
    exact .of_layers rfl
  · rename_i w given
    obtain ⟨t₃, t₄, result, h₃, h₄, rfl⟩ := traces_andThen.1 h₂
    obtain ⟨u, hu, rfl⟩ := RunScript.traces_under.1 h₃
    have hnil : t₄ = [] := by
      split at h₄ <;> exact (traces_done.1 h₄).1
    rw [hnil, List.append_nil]
    -- a run that is refused does nothing, so there is no such layer
    by_cases hempty : u = []
    · rw [hempty]
      exact .of_layers rfl
    · exact .into rfl (he w given u result t₁ h₁ hu hempty)

/-- The layers of the steps declared from an index on. -/
def declaredFrom (index : Nat) (l : Layer) : Prop := ∃ k, index ≤ k ∧ l = .declared k

section Steps

variable {run : Context → Step → RunScript κ StepOutcome}
  {save : Step → List StepResult → RunScript κ (Except CheckpointError Unit)} {ss left : List Step}
  {p p' q : Place} {o : StepOutcome} {h : History (Inquiry κ) Inquiry.Answer} {ending : Ending}

theorem Takes.splits (hr : ∀ u o, (run p.context s).Traces u o → ∀ k, P (.declared k) u)
    (ht : Takes run s p h o) : Trace.Splits P (· = .declared p.results.length) (exchanges h) := by
  obtain ⟨v, hv, heq⟩ := ht.traces
  rw [heq]
  exact .bare_append (t := [_]) rfl (.into rfl (hr v _ hv _))

variable (hs : ∀ s results, (save s results).AsksOnly fun q => q.site = [])

include hs

theorem Goes.splits (hr : ∀ u o, (run p.context s).Traces u o → ∀ k, P (.declared k) u)
    (hgo : Goes run save s p h o) :
    Trace.Splits P (· = .declared p.results.length) (exchanges h) := by
  cases hgo with
  | skipped ht _ => exact ht.splits hr
  | saved ht _ hsave =>
    rw [exchanges_append]
    exact (ht.splits hr).append_bare (Trace.layers_of_asksOnly (hs _ _) hsave.traces)

/-- **From the first step to the last** each step is in the layer of its number. -/
theorem Passes.splits (hr : ∀ s ∈ ss, ∀ c u o, (run c s).Traces u o → ∀ k, P (.declared k) u)
    (hp : Passes run save ss p h left q) :
    Trace.Splits P (fun l => ∃ k, p.results.length ≤ k ∧ k < q.results.length ∧ l = .declared k)
      (exchanges h) ∧ p.results.length ≤ q.results.length := by
  induction hp with
  | here => exact ⟨.of_layers rfl, Nat.le_refl _⟩
  | @step s rest left p q o h k hgo _ ih =>
    obtain ⟨hrest, hle⟩ := ih fun i hi => hr i (List.mem_cons_of_mem _ hi)
    rw [Place.length_results_after] at hrest hle
    refine ⟨?_, by omega⟩
    rw [exchanges_append]
    refine ((hgo.splits hs (hr s List.mem_cons_self p.context)).append hrest ?_).mono ?_
    · rintro l rfl ⟨k, hk, -, hl⟩
      injection hl with hl
      omega
    · rintro l (rfl | ⟨k, hk, hlt, rfl⟩)
      · exact ⟨p.results.length, Nat.le_refl _, hle, rfl⟩
      · exact ⟨k, by omega, hlt, rfl⟩

theorem Stops.splits (hr : ∀ s ∈ ss, ∀ c u o, (run c s).Traces u o → ∀ k, P (.declared k) u)
    (hstops : Stops run save ss p h q ending) :
    Trace.Splits P (· = .declared p.results.length) (exchanges h) := by
  cases hstops with
  | finished => exact .of_layers rfl
  | cancelledBefore s rest => exact .of_layers rfl
  | cancelled rest ht _ => exact ht.splits (hr _ List.mem_cons_self _)
  | failed rest ht _ => exact ht.splits (hr _ List.mem_cons_self _)
  | unsaved rest ht _ hsave =>
    rw [exchanges_append]
    exact (ht.splits (hr _ List.mem_cons_self _)).append_bare
      (Trace.layers_of_asksOnly (hs _ _) hsave.traces)

end Steps

/-- **The course of a run** has its steps in the layers of their numbers. -/
theorem Course.splits {execute : Execute κ} {given : Fields} {recorded : List StepResult}
    {h : History (Inquiry κ) Inquiry.Answer} {x : Execution}
    (hr : ∀ s ∈ w.steps, ∀ c u o, (r.step execute c scope s).Traces u o → ∀ k, P (.declared k) u)
    (hc : Course r execute w given scope recorded h x) :
    Trace.Splits P (declaredFrom recorded.length) (exchanges h) := by
  have hsave : ∀ s results, (saving w scope given s results : RunScript κ _).AsksOnly
      fun q => q.site = [] := fun s results => (asksOnly_saving s results).mono fun q hq => hq.1.1
  obtain @⟨p, q, p', left, began, ending, x, h₁, h₂, h₃, hreplay, hpasses, hstops, hends⟩ := hc
  have hp : p.results.length = recorded.length := congrArg List.length (replay_names hreplay).2
  have hdrop : ∀ s ∈ w.steps.drop recorded.length, s ∈ w.steps := fun s hs => List.mem_of_mem_drop hs
  obtain ⟨hpassed, hle⟩ := hpasses.splits hsave fun s hs => hr s (hdrop s hs)
  have hleft : ∀ s ∈ left, s ∈ w.steps := fun s hs => hdrop s (hpasses.suffix.subset hs)
  have hend : Trace.layers (exchanges h₃) = [] := by
    refine Trace.layers_of_asksOnly (asksOnly_conclude (fun q hq => IsWork_site hq.isWork)
      (fun _ _ => rfl) (fun _ _ => rfl) rfl) hends.traces
  simp only [exchanges_append]
  refine (Trace.Splits.bare_append rfl (hpassed.append
    ((hstops.splits hsave fun s hs => hr s (hleft s hs)).append_bare hend) ?_)).mono ?_
  · rintro l ⟨k, -, hk, rfl⟩ hl
    injection hl with hl
    omega
  · rintro l (⟨k, hk, -, rfl⟩ | rfl)
    · exact ⟨k, by omega, rfl⟩
    · exact ⟨q.results.length, by omega, rfl⟩

/-! ## The parts -/

/-- **A step of one workflow runs another** in a scope of its own. -/
inductive Nests (r : Runner κ) (w : Workflow) (scope : Scope) : Workflow → Scope → Prop
  /-- The step finds the workflow, which is not under way, and inputs for it. -/
  | intro {s : Step} {c : Context} {workflow : String} {inputs given : Fields} {v : Trace κ}
      {w' : Workflow} : s ∈ w.steps.flatMap Step.subtree → s.kind = .subworkflow workflow inputs →
      (r.prepare c scope workflow inputs).run.Traces v (.ok (w', given)) →
      Nests r w scope w' (scope.nested w'.name s.name)

/-- **From a run to what is under way at a site of it**: the same workflow in the same scope, or one
that a step of it runs, and so on. -/
inductive Enters (r : Runner κ) : Workflow → Scope → Site → Workflow → Scope → Prop
  /-- At no layer it is the run itself. -/
  | here (w : Workflow) (scope : Scope) : Enters r w scope [] w scope
  /-- Steps and their tries are those of the run. -/
  | inside {l : Layer} {w w' : Workflow} {scope scope' : Scope} {site : Site} : l ≠ .run →
      Enters r w scope site w' scope' → Enters r w scope (l :: site) w' scope'
  /-- A run inside a step is of another workflow. -/
  | nested {w w' w'' : Workflow} {scope scope' scope'' : Scope} {site : Site} :
      r.Nests w scope w' scope' → Enters r w' scope' site w'' scope'' →
      Enters r w scope (.run :: site) w'' scope''

end Runner

/-- What there can be at a site. -/
inductive Role where
  /-- The run of a workflow. -/
  | run
  /-- A step. -/
  | step
  /-- A try of a step. -/
  | attempt
  deriving DecidableEq

/-- What is in a layer. -/
def Layer.role : Layer → Role
  | .run => .run
  | .attempt _ => .attempt
  | .declared _ | .fix _ | .option | .member _ | .fallback => .step

/-- What there is at a site of a run. -/
def roleAt (site : Site) : Role := (site.getLast?.map Layer.role).getD .run

namespace Runner

/-- **A part of a run** of the workflow, in the scope of the run. -/
inductive Part (r : Runner κ) (w : Workflow) (scope : Scope) : Role → Trace κ → Prop
  /-- It is the run. -/
  | run {levels : Nat} {recorded : List StepResult} {given : Fields} {t : Trace κ}
      {y : Except Refusal Execution} :
      (r.executeFrom (r.execute levels) recorded w given scope).Traces t y → Part r w scope .run t
  /-- It is a step of the workflow. -/
  | step {levels : Nat} {c : Context} {s : Step} {t : Trace κ} {o : StepOutcome} :
      s ∈ w.steps.flatMap Step.subtree → (r.step (r.execute levels) c scope s).Traces t o →
      Part r w scope .step t
  /-- It is a try of a step of the workflow. -/
  | attempt {levels : Nat} {c : Context} {s : Step} {t : Trace κ} {a : Attempt} :
      s ∈ w.steps.flatMap Step.subtree →
      (r.kindOf (r.execute levels) c scope s.name s.kind).Traces t a → Part r w scope .attempt t

/-- What a part of the run has in a layer. -/
def PartIn (r : Runner κ) (w : Workflow) (scope : Scope) (l : Layer) (t : Trace κ) : Prop :=
  ∃ w' scope', r.Enters w scope [l] w' scope' ∧ r.Part w' scope' l.role t

/-- A part of the same run. -/
theorem PartIn.here {l : Layer} (hl : l ≠ .run) (h : r.Part w scope l.role t) :
    r.PartIn w scope l t := ⟨w, scope, .inside hl (.here w scope), h⟩

theorem mem_subtrees {s i : Step} (hs : s ∈ w.steps.flatMap Step.subtree) (hi : i ∈ s.nested) :
    i ∈ w.steps.flatMap Step.subtree := by
  obtain ⟨d, hd, hs⟩ := List.mem_flatMap.1 hs
  exact List.mem_flatMap.2 ⟨d, hd, Step.subtree_trans hs (Step.subtree_subset hi i.mem_subtree_self)⟩

/-- **A try of a step** has in its layers the steps inside it, or the run of a workflow. -/
theorem kindOf_splits {levels : Nat} {a : Attempt} (hs : s ∈ w.steps.flatMap Step.subtree)
    (h : (r.kindOf (r.execute levels) c scope s.name s.kind).Traces t a) :
    t.Splits (r.PartIn w scope) fun _ => True := by
  have hinner : ∀ i ∈ s.kind.inner, ∀ u o, (r.plan (r.execute levels) c scope i).run.Traces u o →
      r.Part w scope .step u := fun i hi u o hu =>
    .step (mem_subtrees hs (List.mem_append_left _ hi)) hu
  have hcalls := RunScript.Works.compositional fun (q : Inquiry κ) (hq : q.IsCall) =>
    IsWork_site hq.isWork
  -- a try that only calls components has no layer
  have hbare : ∀ {x : StepScript κ Value}, x.Works (fun q => q.site = []) → (attempting x).Traces t a →
      t.Splits (r.PartIn w scope) fun _ => True := fun hx h =>
    .of_layers (Trace.layers_of_asksOnly (attempting_works hx).asks h)
  cases hk : s.kind with
  | call action args kwargs =>
    rw [hk, kindOf] at h
    exact hbare (hcalls.callAction r c action args kwargs) h
  | agent agent inline builder =>
    rw [hk, kindOf] at h
    exact hbare (hcalls.runAgent r c agent inline builder) h
  | generate generator inline builder =>
    rw [hk, kindOf] at h
    exact hbare (hcalls.runGenerator r c generator inline builder) h
  | validate stages retry fix =>
    rw [hk, kindOf, fallbackOf_eq] at h
    refine (validating_splits (hcalls.runStages r stages).asks (fun f hf u o hu k => ?_) h).mono
      fun _ _ => trivial
    obtain ⟨i, hi, rfl⟩ := Option.map_eq_some_iff.1 hf
    exact .here (by simp) (hinner i (by rw [hk]; exact Option.mem_toList.2 hi) u o hu)
  | subworkflow workflow inputs =>
    rw [hk, kindOf] at h
    refine (runNested_splits (fun w' given u y v hv hu hne => ?_) h).mono fun _ _ => trivial
    refine ⟨w', _, .nested (.intro hs hk hv) (.here _ _), ?_⟩
    -- at the last level nothing happens
    cases levels with
    | zero => exact absurd (traces_done.1 hu).1 hne
    | succ levels => exact .run hu
  | branch options =>
    rw [hk, kindOf, optionsOf_eq] at h
    refine (branching_splits (fun o ho u x hu => ?_) h).mono fun _ _ => trivial
    obtain ⟨b, hb, rfl⟩ := List.mem_map.1 ho
    exact .here (by simp) (hinner b.step (by rw [hk]; exact List.mem_map_of_mem hb) u x hu)
  | parallel members =>
    rw [hk, kindOf, membersOf_eq] at h
    refine (grouping_splits (fun m hm u o hu k => ?_) h).mono fun _ _ => trivial
    obtain ⟨i, hi, rfl⟩ := List.mem_map.1 hm
    exact .here (by simp) (hinner i (by rw [hk]; exact hi) u o hu)

theorem finish_layers {began : Nat} {o o' : StepOutcome} {h : History (Inquiry κ) Inquiry.Answer}
    (u : (finish scope s began o : RunScript κ StepOutcome).Unfolds h o') :
    Trace.layers (exchanges h) = [] := by
  obtain ⟨now, d, -, rfl⟩ := finish_unfolds u
  rfl

/-- **A step** has in its layers its tries and its fallback. -/
theorem step_splits {levels : Nat} {o : StepOutcome} (hs : s ∈ w.steps.flatMap Step.subtree)
    (h : (r.step (r.execute levels) c scope s).Traces t o) :
    t.Splits (r.PartIn w scope) fun _ => True := by
  obtain ⟨h, u, rfl⟩ := h
  cases step_course u with
  | skipped _ uend =>
    have hend := finish_layers uend
    exact .of_layers hend
  | cancelled _ uend =>
    have hend := finish_layers uend
    exact .of_layers hend
  | tried _ utries ufallback uend =>
    have htries := retried_splits (P := r.PartIn w scope)
      (fun u a hu k => .here (by simp) (.attempt hs hu)) utries.traces
    have hfallback := recovering_splits (P := r.PartIn w scope) (fun f hf u o hu => by
      obtain ⟨i, hi, rfl⟩ := Option.map_eq_some_iff.1 hf
      exact .here (by simp) (.step (mem_subtrees hs (List.mem_append_right _ (Option.mem_toList.2 hi))) hu))
      ufallback.traces
    simp only [exchanges_asked, pollTurn, startTurn, exchanges_append]
    refine .bare_append (t := [_, _, _]) rfl
      ((htries.append (hfallback.append_bare (finish_layers uend)) ?_).mono fun _ _ => trivial)
    rintro l ⟨k, -, rfl⟩
    simp

/-- **Every part of a run** has parts of the run in its layers, or runs inside its steps. -/
theorem Part.splits {role : Role} (h : r.Part w scope role t) :
    t.Splits (r.PartIn w scope) fun _ => True := by
  cases h with
  | @run levels recorded given t y h =>
    cases y with
    | error e =>
      rw [executeFrom_refused h]
      exact .of_layers rfl
    | ok x =>
      obtain ⟨h, u, rfl⟩ := h
      refine ((executeFrom_course u).splits fun s hs c u o hu k => ?_).mono fun _ _ => trivial
      exact .here (by simp) (.step (List.mem_flatMap.2 ⟨s, hs, s.mem_subtree_self⟩) hu)
  | step hs h => exact step_splits hs h
  | attempt hs h => exact kindOf_splits hs h

theorem Enters.append {site' : Site} (h : r.Enters w scope site w' scope')
    (h' : r.Enters w' scope' site' w'' scope'') : r.Enters w scope (site ++ site') w'' scope'' := by
  induction h with
  | here => exact h'
  | inside hl _ ih => exact .inside hl (ih h')
  | nested hn _ ih => exact .nested hn (ih h')

/-- **At every site of a run where anything happens there is one part**, of a workflow and in a scope
that the run enters there. -/
theorem Part.inside {role : Role} (h : r.Part w scope role t) (hne : t.inside site ≠ []) :
    ∃ w' scope', r.Enters w scope site w' scope' ∧
      r.Part w' scope' ((site.getLast?.map Layer.role).getD role) (t.inside site) := by
  induction site generalizing w scope role t with
  | nil => exact ⟨w, scope, .here w scope, h⟩
  | cons l site ih =>
    have hl : l ∈ t.layers := by
      rw [Trace.mem_layers_iff]
      intro hnil
      rw [Trace.inside, hnil] at hne
      exact hne (Trace.inside_nil site)
    obtain ⟨-, w₁, scope₁, henters, hpart⟩ := h.splits l hl
    obtain ⟨w₂, scope₂, henters', hpart'⟩ := ih hpart hne
    refine ⟨w₂, scope₂, henters.append henters', ?_⟩
    cases site with
    | nil => exact hpart'
    | cons m site =>
      rw [List.getLast?_cons_cons]
      rw [List.getLast?_cons] at hpart' ⊢
      exact hpart'

theorem Part.inside_run (h : r.Part w scope .run t) (hne : t.inside site ≠ []) :
    ∃ w' scope', r.Enters w scope site w' scope' ∧ r.Part w' scope' (roleAt site) (t.inside site) :=
  h.inside hne

end Runner

end Stepflow
