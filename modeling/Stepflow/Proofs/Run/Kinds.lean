import Stepflow.Proofs.Run.Keeping
import Stepflow.Run.Step

/-!
# What each kind of step adds

One law for each thing that a step does with the steps inside it: trying again, running a fallback, an
option of a branch, the fixes of a validation, the members of a group, and a workflow. Each says that
the children and the effects that come out are what the exchanges leave, provided that the steps inside
keep account. Only two of them lose anything of the record: trying again keeps the children of the last
try, and the run of a workflow keeps its outputs to itself.
-/

namespace Stepflow

open Script

variable {κ : Type} {r : Runner κ} {s : Step} {c : Context} {scope : Scope} {t u : Trace κ}
  {among : Layer → Prop}

/-- A step ready to be run inside another keeps account. -/
structure Planned.Fits (r : Runner κ) (s : Step) (f : Planned κ) : Prop where
  /-- It is directly inside. -/
  nested : f.step ∈ s.nested
  /-- It keeps account. -/
  keeps : f.step.Keeps r f.run

namespace Step.Adds

theorem of_works {α : Type} {x : RunScript κ α} (hx : x.Works Inquiry.IsQuiet) {a : α}
    (h : x.Traces t a) : s.Adds r among t [] .empty := .quiet (.of_asksOnly hx.asks h)

/-- What happened inside a step, one layer further in. -/
theorem into {children : List StepResult} {effects : Effects}
    (h : s.Adds r among t children effects) {l : Layer} (hl : l ≠ .run) :
    s.Adds r (· = l) (t.into l) children effects := by
  obtain ⟨_, _, cs, hk⟩ := h
  exact ⟨Trace.calm_into t l, fun m hm => Trace.mem_layers_into hm, _, hk.into hl⟩

end Step.Adds

namespace Runner

/-! ## Components -/

theorem attempting_adds {x : StepScript κ Value} (hx : x.Works Inquiry.IsQuiet) {a : Attempt}
    (h : (attempting x).Traces t a) : s.Adds r among t a.children a.effects := by
  obtain ⟨t₁, t₂, outcome, h₁, h₂, rfl⟩ := traces_andThen.1 h
  obtain ⟨rfl, rfl⟩ := traces_done.1 h₂
  rw [List.append_nil]
  exact .of_works hx h₁

/-! ## Branches and fallbacks -/

/-- **A branch** adds its chosen option. -/
theorem branching_adds {options : List (Expression × Planned κ)}
    (ho : ∀ o ∈ options, o.2.Fits r s) {a : Attempt} (h : (branching c options).Traces t a) :
    s.Adds r (· = .option) t a.children a.effects := by
  induction options with
  | nil =>
    obtain ⟨rfl, rfl⟩ := traces_done.1 h
    exact .quiet .nil
  | cons o rest ih =>
    obtain ⟨condition, option⟩ := o
    rw [branching] at h
    split at h
    · obtain ⟨rfl, rfl⟩ := traces_done.1 h
      exact .quiet .nil
    · exact ih (fun o ho' => ho o (List.mem_cons_of_mem _ ho')) h
    · obtain ⟨t₁, t₂, o, h₁, h₂, rfl⟩ := traces_andThen.1 h
      obtain ⟨rfl, rfl⟩ := traces_done.1 h₂
      have hf : option.Fits r s := ho _ List.mem_cons_self
      rw [List.append_nil]
      exact .runAs (l := .option) hf.keeps hf.nested nofun h₁

/-- The layers in which a step that was tried is tried again. -/
def tryFrom (tries : Nat) (l : Layer) : Prop := ∃ k, tries ≤ k ∧ l = .attempt k

/-- **A fallback** adds to what the tries added. -/
theorem recovering_adds {fallback : Option (Planned κ)} (hf : ∀ f ∈ fallback, f.Fits r s)
    {a a' : Attempt} (ht : s.Adds r (tryFrom 0) t a.children a.effects)
    (h : (recovering fallback a).Traces u a') :
    s.Adds r (fun l => tryFrom 0 l ∨ l = .fallback) (t ++ u) a'.children a'.effects := by
  -- no fallback is run unless the last try failed and nothing was cancelled
  have hdone : (Script.done a : RunScript κ Attempt).Traces u a' →
      s.Adds r (fun l => tryFrom 0 l ∨ l = .fallback) (t ++ u) a'.children a'.effects := fun h => by
    obtain ⟨rfl, rfl⟩ := traces_done.1 h
    exact (ht.append_quiet .nil).mono fun _ => .inl
  unfold recovering at h
  split at h
  · rename_i f e _
    split at h
    · exact hdone h
    · obtain ⟨u₁, u₂, o, h₁, h₂, rfl⟩ := traces_andThen.1 h
      obtain ⟨rfl, rfl⟩ := traces_done.1 h₂
      have hfit : f.Fits r s := hf f rfl
      rw [List.append_nil]
      refine ht.join (.runAs (l := .fallback) hfit.keeps hfit.nested nofun h₁) (.append _ _) ?_
        (.inr fun k => nofun)
      rintro _ _ ⟨k, _, rfl⟩ rfl
      trivial
  · exact hdone h

/-! ## Trying again -/

theorem tryFrom_before {tries : Nat} {l m : Layer} (hl : l = .attempt tries)
    (hm : tryFrom (tries + 1) m) : l.Before m := by
  obtain ⟨k, hk, rfl⟩ := hm
  subst hl
  exact hk

/-- **Trying again** adds the effects of all tries and the children of the last. A later try that
exchanges nothing was no different from those before it, since a try is prompt. -/
theorem retrying_adds {wait : Nat → RunScript κ Bool} {attempt : RunScript κ Attempt}
    (hw : ∀ n, (wait n).AsksOnly Inquiry.IsQuiet) (hp : attempt.Prompt)
    (ha : ∀ t a, attempt.Traces t a → s.Adds r among t a.children a.effects)
    {left tries n : Nat} {effects : Effects} {a : Attempt}
    (h : (retrying wait attempt left tries effects).Traces t (a, n)) :
    (∃ e, s.Adds r (tryFrom tries) t a.children e ∧ a.effects = effects ++ e) ∧
      (t.layers = [] → ∃ a, attempt.Traces [] a) := by
  -- the induction is on the tries left; the exchanges of one try come first in each case
  induction left generalizing tries effects t with
  | zero =>
    obtain ⟨t₁, t₂, b, h₁, h₂, rfl⟩ := traces_andThen.1 h
    obtain ⟨rfl, rfl, -⟩ := traces_done_pair.1 h₂
    obtain ⟨v, hv, rfl⟩ := RunScript.traces_under.1 h₁
    rw [List.append_nil]
    have hadds : s.Adds r (tryFrom tries) (v.into (.attempt tries)) b.children b.effects :=
      ((ha v b hv).into (l := .attempt tries) nofun).mono fun l hl => ⟨tries, Nat.le_refl _, hl⟩
    refine ⟨⟨b.effects, hadds, rfl⟩, ?_⟩
    intro hl
    rw [Trace.layers_into, List.replicate_eq_nil_iff, List.length_eq_zero_iff] at hl
    exact ⟨b, hl ▸ hv⟩
  | succ left ih =>
    obtain ⟨t₁, t₂, b, h₁, h₂, rfl⟩ := traces_andThen.1 h
    obtain ⟨v, hv, rfl⟩ := RunScript.traces_under.1 h₁
    have hb : s.Adds r (· = .attempt tries) (v.into (.attempt tries)) b.children b.effects :=
      (ha v b hv).into nofun
    -- the second claim is about this try alone, whatever follows it
    have hnil : (v.into (.attempt tries) ++ t₂).layers = [] → ∃ a, attempt.Traces [] a := by
      intro hl
      rw [Trace.layers_append, List.append_eq_nil_iff, Trace.layers_into,
        List.replicate_eq_nil_iff, List.length_eq_zero_iff] at hl
      exact ⟨b, hl.1 ▸ hv⟩
    refine ⟨?_, hnil⟩
    dsimp only at h₂
    split at h₂
    · obtain ⟨w, t₃, cancelled, hwait, h₃, rfl⟩ := traces_andThen.1 h₂
      have hquiet : Trace.Quiet w := .of_asksOnly (hw _) hwait
      split at h₃
      · obtain ⟨rfl, rfl, -⟩ := traces_done_pair.1 h₃
        rw [List.append_nil]
        exact ⟨b.effects, (hb.append_quiet hquiet).mono fun l hl => ⟨tries, Nat.le_refl _, hl⟩, rfl⟩
      · obtain ⟨⟨e, he, hae⟩, hlast⟩ := ih h₃
        refine ⟨b.effects ++ e, ?_, by rw [hae, Effects.append_assoc]⟩
        -- the tries that follow take the place of this one in the record
        refine (hb.replace (he.quiet_append hquiet) (.append _ _) (fun _ _ => tryFrom_before)
          fun l hl => ?_).mono ?_
        · obtain rfl := hb.among_of_mem hl
          have hlayers : Trace.layers t₃ ≠ [] := fun h₀ => by
            -- the later tries made no exchange, so this one did not either
            obtain ⟨a₀, h₀⟩ := hlast h₀
            rw [hp.eq_done h₀] at hv
            rw [(traces_done.1 hv).1] at hl
            contradiction
          obtain ⟨m, hm⟩ := List.exists_mem_of_ne_nil _ hlayers
          obtain ⟨j, hj, rfl⟩ := he.among_of_mem hm
          refine Trace.superseded_iff.2 ⟨tries, j, rfl, ?_, hj⟩
          simp [hm]
        · rintro l (rfl | ⟨k, hk, rfl⟩)
          · exact ⟨tries, Nat.le_refl _, rfl⟩
          · exact ⟨k, by omega, rfl⟩
    · obtain ⟨rfl, rfl, -⟩ := traces_done_pair.1 h₂
      rw [List.append_nil]
      exact ⟨b.effects, hb.mono fun l hl => ⟨tries, Nat.le_refl _, hl⟩, rfl⟩

theorem asksOnly_wait {p : Inquiry κ → Prop} (hjitter : p { request := .jitter })
    (hnow : p { request := .now }) (r : Runner κ) (policy : RetryPolicy) (tries : Nat) :
    (r.wait policy tries).AsksOnly p :=
  (asksOnly_request.2 hjitter).andThen fun _ => (asksOnly_request.2 hnow).andThen
    fun _ => asksOnly_sleepUntil _

/-- Without a policy there is one try. -/
theorem retried_none {attempt : RunScript κ Attempt} {a : Attempt} {n : Nat}
    (h : (r.retried none attempt).Traces t (a, n)) :
    ∃ v, attempt.Traces v a ∧ t = Trace.into v (.attempt 0) := by
  obtain ⟨t₁, t₂, b, h₁, h₂, rfl⟩ := traces_andThen.1 h
  obtain ⟨rfl, rfl, -⟩ := traces_done_pair.1 h₂
  obtain ⟨v, hv, rfl⟩ := RunScript.traces_under.1 h₁
  exact ⟨v, hv, List.append_nil _⟩

/-- Tries according to a policy add what the tries leave. -/
theorem retried_adds {attempt : RunScript κ Attempt} (hp : attempt.Prompt)
    (ha : ∀ t a, attempt.Traces t a → s.Adds r among t a.children a.effects)
    {policy : Option RetryPolicy} {a : Attempt} {n : Nat}
    (h : (r.retried policy attempt).Traces t (a, n)) :
    s.Adds r (tryFrom 0) t a.children a.effects := by
  cases policy with
  | none =>
    obtain ⟨v, hv, rfl⟩ := retried_none h
    exact ((ha v a hv).into (l := .attempt _) nofun).mono fun l hl => ⟨0, Nat.le_refl _, hl⟩
  | some p =>
    obtain ⟨⟨e, he, hae⟩, -⟩ :=
      retrying_adds (asksOnly_wait Inquiry.IsWork.jitter.isQuiet Inquiry.IsWork.now.isQuiet r p) hp ha h
    rw [hae, Effects.empty_append]
    exact he

/-! ## Validations -/

/-- The layers of the fixes after a number of fixes. -/
def fixFrom (count : Nat) (l : Layer) : Prop := ∃ k, count ≤ k ∧ l = .fix k

theorem validating_adds {stages : StepScript κ (Option StageFailure)} {fix : Option (Planned κ)}
    (hs : stages.Works Inquiry.IsQuiet) (hf : ∀ f ∈ fix, f.Fits r s) {left : Nat} {fixes : Fixes}
    {a : Attempt} (h : (validating stages fix left fixes).Traces t a) :
    ∃ children e, s.Adds r (fixFrom fixes.count) t children e ∧
      a.children = fixes.children ++ children ∧ a.effects = fixes.effects ++ e := by
  -- whatever ends the validation, it keeps the fixes made so far
  have hend : ∀ {t : Trace κ} {fixes : Fixes} {count : Nat} {a' : Attempt}, t.Quiet →
      a'.children = fixes.children → a'.effects = fixes.effects →
      ∃ children e, s.Adds r (fixFrom count) t children e ∧
        a'.children = fixes.children ++ children ∧ a'.effects = fixes.effects ++ e :=
    fun hq hc he => ⟨[], .empty, .quiet hq, by rw [hc, List.append_nil],
      by rw [he, Effects.append_empty]⟩
  induction left generalizing fixes t with
  | zero =>
    rw [validating] at h
    obtain ⟨t₁, t₂, outcome, h₁, h₂, rfl⟩ := traces_andThen.1 h
    have hq : Trace.Quiet t₁ := .of_asksOnly hs.asks h₁
    split at h₂ <;> obtain ⟨rfl, rfl⟩ := traces_done.1 h₂ <;> rw [List.append_nil] <;>
      exact hend hq rfl rfl
  | succ left ih =>
    rw [validating] at h
    obtain ⟨t₁, t₂, outcome, h₁, h₂, rfl⟩ := traces_andThen.1 h
    have hq : Trace.Quiet t₁ := .of_asksOnly hs.asks h₁
    split at h₂
    · obtain ⟨rfl, rfl⟩ := traces_done.1 h₂
      rw [List.append_nil]
      exact hend hq rfl rfl
    · obtain ⟨rfl, rfl⟩ := traces_done.1 h₂
      rw [List.append_nil]
      exact hend hq rfl rfl
    · obtain ⟨t₃, t₄, cancelled, h₃, h₄, rfl⟩ := traces_andThen.1 h₂
      have hq₃ : Trace.Quiet t₃ := .of_asksOnly
        (RunScript.Works.isCancelled fun _ => Inquiry.IsWork.isQuiet).asks h₃
      rw [← List.append_assoc]
      have hq := hq.append hq₃
      split at h₄
      · obtain ⟨rfl, rfl⟩ := traces_done.1 h₄
        rw [List.append_nil]
        exact hend hq rfl rfl
      · cases fix with
        | none =>
          obtain ⟨children, e, hadds, hc, he⟩ := ih h₄
          refine ⟨children, e, (hadds.quiet_append hq).mono ?_, hc, he⟩
          rintro l ⟨k, hk, rfl⟩
          exact ⟨k, by simp only [Fixes.afterNothing] at hk; omega, rfl⟩
        | some f =>
          obtain ⟨t₅, t₆, o, h₅, h₆, rfl⟩ := traces_andThen.1 h₄
          have hfit : f.Fits r s := hf f rfl
          have hfix : s.Adds r (· = .fix fixes.count) t₅ [o.result] o.effects :=
            .runAs (l := .fix _) hfit.keeps hfit.nested nofun h₅
          have hfrom : ∀ l, l = .fix fixes.count → fixFrom fixes.count l :=
            fun l hl => ⟨_, Nat.le_refl _, hl⟩
          split at h₆
          · obtain ⟨rfl, rfl⟩ := traces_done.1 h₆
            rw [List.append_nil]
            exact ⟨_, _, (hfix.quiet_append hq).mono hfrom, rfl, rfl⟩
          · obtain ⟨children, e, hadds, hc, he⟩ := ih h₆
            refine ⟨[o.result] ++ children, o.effects ++ e,
              ((hfix.join hadds (.append _ _) ?_ (.inl fun k => nofun)).quiet_append hq).mono ?_,
              ?_, ?_⟩
            · rintro _ _ rfl ⟨k, hk, rfl⟩
              exact hk
            · rintro l (hl | ⟨k, hk, rfl⟩)
              · exact hfrom l hl
              · exact ⟨k, by simp only [Fixes.after] at hk; omega, rfl⟩
            · rw [hc, Fixes.after, List.append_assoc]
            · rw [he, Fixes.after, Effects.append_assoc]

/-! ## Groups -/

/-- The layers of the members from an index on. -/
def memberFrom (index : Nat) (l : Layer) : Prop := ∃ k, index ≤ k ∧ l = .member k

/-- Members side by side add their results and effects in the order of the members. -/
theorem members_add {members : List (Planned κ)} (hm : ∀ m ∈ members, m.Fits r s) {index : Nat}
    {os : List StepOutcome}
    (h : TracesAll ((members.zipIdx index).map fun m => m.1.runAs (.member m.2)) t os) :
    s.Adds r (memberFrom index) t (os.map StepOutcome.result)
      (.concat (os.map StepOutcome.effects)) := by
  induction members generalizing index t os with
  | nil =>
    cases h
    exact .quiet .nil
  | cons m rest ih =>
    rw [List.zipIdx_cons, List.map_cons] at h
    obtain _ | ⟨hv, hw, i⟩ := h
    have hfit : m.Fits r s := hm m List.mem_cons_self
    have hrest := ih (fun m hm' => hm m (List.mem_cons_of_mem _ hm')) hw
    -- the layers of the members are numbered, so those of the first come before the rest's
    refine ((Step.Adds.runAs (l := .member _) hfit.keeps hfit.nested nofun hv).join hrest i ?_
      (.inl fun k => nofun)).mono ?_
    · rintro _ _ rfl ⟨k, hk, rfl⟩
      exact hk
    · rintro l (rfl | ⟨k, hk, rfl⟩)
      · exact ⟨index, Nat.le_refl _, rfl⟩
      · exact ⟨k, by omega, rfl⟩

/-- **A group** adds all its members. -/
theorem grouping_adds {members : List (Planned κ)} (hm : ∀ m ∈ members, m.Fits r s) {a : Attempt}
    (h : (grouping members).Traces t a) : s.Adds r (memberFrom 0) t a.children a.effects := by
  unfold grouping at h
  split at h
  · obtain ⟨rfl, rfl⟩ := traces_done.1 h
    exact .quiet .nil
  · obtain ⟨t₁, t₂, os, h₁, h₂, rfl⟩ := traces_andThen.1 h
    obtain ⟨rfl, rfl⟩ := traces_done.1 h₂
    rw [List.append_nil]
    exact members_add hm (TracesAll.of_all h₁)

/-! ## Workflows -/

end Runner

/-- **A run keeps account**: one that is refused exchanges nothing, and after any other what it owes
and what its results record is what the trace leaves. Its results are results of steps of its
workflow. -/
structure Workflow.Keeps (r : Runner κ) (w : Workflow)
    (run : RunScript κ (Except Refusal Execution)) : Prop where
  /-- A run that is refused does nothing. -/
  refused : ∀ (t : Trace κ) (e : Refusal), run.Traces t (.error e) → t = []
  /-- The results are those of steps of the workflow. -/
  names : ∀ (t : Trace κ) (x : Execution), run.Traces t (.ok x) →
    ∀ result ∈ x.result.steps, ∃ s ∈ w.steps, s.name = result.name
  /-- What is owed and recorded is what the trace leaves. -/
  kept : ∀ (t : Trace κ) (x : Execution), run.Traces t (.ok x) →
    ∃ cs outputs, Kept r False t cs ⟨outputs, x.compensations⟩
      ⟨StepResult.recordedOutputsOf x.result.steps, []⟩

namespace Runner

/-- **The run of a workflow** adds its results and what it owes, but no outputs. -/
theorem runNested_adds {execute : Execute κ} {step workflow : String} {inputs : Fields}
    (he : ∀ (w : Workflow) inputs scope, w.Keeps r (execute w inputs scope))
    (hs : s.kind = .subworkflow workflow inputs) {a : Attempt}
    (h : (r.runNested execute c scope step workflow inputs).Traces t a) :
    s.Adds r (· = .run) t a.children a.effects := by
  obtain ⟨t₁, t₂, prepared, h₁, h₂, rfl⟩ := traces_andThen.1 h
  have hq : Trace.Quiet t₁ := .of_asksOnly ((RunScript.Works.compositional
    fun _ hq => hq.isWork.isQuiet).prepare r c scope workflow inputs).asks h₁
  refine .quiet_append hq ?_
  split at h₂
  · obtain ⟨rfl, rfl⟩ := traces_done.1 h₂
    exact .quiet .nil
  · rename_i w given
    obtain ⟨t₃, t₄, result, h₃, h₄, rfl⟩ := traces_andThen.1 h₂
    obtain ⟨v, hv, rfl⟩ := RunScript.traces_under.1 h₃
    split at h₄ <;> obtain ⟨rfl, rfl⟩ := traces_done.1 h₄ <;> rw [List.append_nil]
    · rw [(he _ _ _).refused v _ hv]
      exact .quiet .nil
    · rename_i x
      obtain ⟨cs, outputs, hk⟩ := (he _ _ _).kept v x hv
      refine ⟨Trace.calm_into v .run, fun m hm => Trace.mem_layers_into hm, _,
        hk.ledger.into .run, ⟨hk.memory.intoRun.outputs_eq, hk.memory.intoRun.recorded_outputs,
          fun hd => ?_⟩⟩
      -- a replay finds no step of the other workflow among the steps inside this one, only the fallback,
      -- whose name is apart from theirs
      rw [← hk.memory.intoRun.recorded_compensations trivial]
      refine StepResult.recordedCompensationsOf_eq_nil fun result hm fallback hf => ?_
      obtain ⟨i, hi, hname⟩ := (he _ _ _).names v x hv result hm
      obtain hw | ⟨-, rfl⟩ := prepare_ok h₁
      · have hf : fallback ∈ s.onError := by
          rw [Step.nested, hs] at hf
          exact Option.mem_toList.1 hf
        rw [← hname]
        exact (hd.apart hs hw hf hi).symm
      · contradiction

/-! ## Decorations -/

end Runner

namespace StepResult

variable {result : StepResult}

/-- What the result of a step that is done records. -/
theorem recorded_of_done (h : result.status.isDone) (hn : result.name = s.name) :
    result.recorded s =
      recordedAmong s.nested result.children ++ .ofCompleted s result.output := by
  obtain ⟨name, type, status, output, error, attempts, durationMs, children⟩ := result
  subst hn
  show Effects.mk _ _ = Effects.mk _ _
  rw [recordedOutputs, recordedCompensations, if_pos h, if_pos h]
  rfl

/-- One that is not done records nothing. -/
theorem recorded_of_not_done (h : result.status.isDone = false) : result.recorded s = .empty := by
  obtain ⟨name, type, status, output, error, attempts, durationMs, children⟩ := result
  show Effects.mk _ _ = Effects.mk _ _
  rw [recordedOutputs, recordedCompensations, if_neg (by simp [h]), if_neg (by simp [h])]

end StepResult

namespace Step.Adds

variable {workflow : String} {result : StepResult} {effects : Effects}

/-- **The end of a step that is done.** -/
theorem complete (h : s.Adds r among t result.children effects) (hdone : result.status.isDone)
    (hn : result.name = s.name) :
    ∃ cs, Kept r (s.Distinct r) (t.completing workflow s result) cs
      (effects ++ .ofCompleted s result.output) (result.recorded s) := by
  obtain ⟨hc, _, cs, hk⟩ := h
  rw [StepResult.recorded_of_done hdone hn]
  exact ⟨_, hk.ledger.complete hc hdone, hk.memory.complete hc hk.ledger.lists hdone⟩

/-- The end of one that is not. -/
theorem giveUp (h : s.Adds r among t result.children effects)
    (hdone : result.status.isDone = false) :
    ∃ cs, Kept r (s.Distinct r) (t.completing workflow s result) cs effects (result.recorded s) := by
  obtain ⟨hc, _, cs, hk⟩ := h
  rw [StepResult.recorded_of_not_done hdone]
  exact ⟨_, hk.ledger.giveUp hc hdone, hk.memory.giveUp hc hk.ledger.lists hdone⟩

end Step.Adds

namespace Runner

/-- The end of a step takes the time, and tells the result with it. -/
theorem finish_traces {began : Nat} {o o' : StepOutcome}
    (h : (finish scope s began o : RunScript κ StepOutcome).Traces t o') :
    ∃ (q : Trace κ) (d : Nat), q.Quiet ∧ o' = { o with result := { o.result with durationMs := d } } ∧
      t = q.completing scope.workflow s { o.result with durationMs := d } := by
  obtain ⟨t₁, t₂, d, h₁, h₂, rfl⟩ := traces_andThen.1 h
  obtain ⟨t₃, t₄, _, h₃, h₄, rfl⟩ := traces_andThen.1 h₂
  obtain ⟨rfl, rfl⟩ := traces_done.1 h₄
  obtain rfl := traces_request.1 h₃
  have hq : (RunScript.millisecondsSince began : RunScript κ Nat).AsksOnly Inquiry.IsQuiet :=
    (asksOnly_request.2 (Inquiry.IsWork.now).isQuiet).andThen fun _ => trivial
  refine ⟨t₁, d, .of_asksOnly hq h₁, rfl, ?_⟩
  rw [List.append_nil]
  rfl

/-- A step that is only ended keeps account of what happened inside it. -/
theorem finish_keeps {began tries : Nat} {a : Attempt} (hu : s.Adds r among u a.children a.effects)
    {o : StepOutcome}
    (h : (finish scope s began (s.conclude a tries) : RunScript κ StepOutcome).Traces t o) :
    o.result.name = s.name ∧
      ∃ cs, Kept r (s.Distinct r) (u ++ t) cs o.effects (o.result.recorded s) := by
  obtain ⟨q, d, hq, rfl, rfl⟩ := finish_traces h
  have hadds := hu.append_quiet hq
  have hassoc : ∀ result, u ++ q.completing scope.workflow s result =
      Trace.completing (u ++ q) scope.workflow s result :=
    fun result => (List.append_assoc u q _).symm
  rw [hassoc]
  unfold Step.conclude
  cases a.outcome with
  | ok output =>
    refine ⟨rfl, hadds.complete ?_ rfl⟩
    dsimp only
    split <;> rfl
  | error e =>
    dsimp only
    split
    · exact ⟨rfl, hadds.giveUp rfl⟩
    · refine ⟨rfl, hadds.giveUp ?_⟩
      dsimp only
      split <;> rfl

/-- A step that did nothing keeps account. -/
theorem finish_keeps_undone {began : Nat} {result : StepResult} (hn : result.name = s.name)
    (hdone : result.status.isDone = false) (hc : result.children = []) (hu : u.Quiet)
    {o : StepOutcome}
    (h : (finish scope s began { result } : RunScript κ StepOutcome).Traces t o) :
    o.result.name = s.name ∧
      ∃ cs, Kept r (s.Distinct r) (u ++ t) cs o.effects (o.result.recorded s) := by
  obtain ⟨q, d, hq, rfl, rfl⟩ := finish_traces h
  have hadds : s.Adds r (fun _ => False) (u ++ q) { result with durationMs := d }.children .empty := by
    rw [hc]
    exact .quiet (hu.append hq)
  have hassoc : u ++ q.completing scope.workflow s { result with durationMs := d } =
      Trace.completing (u ++ q) scope.workflow s { result with durationMs := d } :=
    (List.append_assoc u q _).symm
  rw [hassoc]
  exact ⟨hn, hadds.giveUp hdone⟩

/-- **The decorations of a step** keep account if what its kind does does. -/
theorem decorated_keeps {attempt : RunScript κ Attempt} {fallback : Option (Planned κ)}
    (hp : attempt.Prompt) (ha : ∀ t a, attempt.Traces t a → s.Adds r among t a.children a.effects)
    (hf : ∀ f ∈ fallback, f.Fits r s) : s.Keeps r (r.decorated c scope s attempt fallback) := by
  intro t o h
  obtain ⟨t₁, t₂, began, h₁, h₂, rfl⟩ := traces_andThen.1 h
  have hq₁ : Trace.Quiet t₁ := .of_asksOnly (asksOnly_request.2 (Inquiry.IsWork.now).isQuiet) h₁
  split at h₂
  · exact finish_keeps_undone rfl rfl rfl hq₁ h₂
  · obtain ⟨t₃, t₄, cancelled, h₃, h₄, rfl⟩ := traces_andThen.1 h₂
    have hq₃ : Trace.Quiet t₃ := .of_asksOnly (asksOnly_request.2 (Inquiry.IsWork.isCancelled).isQuiet) h₃
    rw [← List.append_assoc]
    split at h₄
    · exact finish_keeps_undone rfl rfl rfl (hq₁.append hq₃) h₄
    · obtain ⟨t₅, t₆, _, h₅, h₆, rfl⟩ := traces_andThen.1 h₄
      have hq₅ : Trace.Quiet t₅ := .of_asksOnly (asksOnly_request.2 ⟨rfl, by rintro _ ⟨⟩; rfl⟩) h₅
      obtain ⟨t₇, t₈, ⟨a, n⟩, h₇, h₈, rfl⟩ := traces_andThen.1 h₆
      obtain ⟨t₉, t₁₀, a', h₉, h₁₀, rfl⟩ := traces_andThen.1 h₈
      have hadds := recovering_adds hf (retried_adds hp ha h₇) h₉
      have hall := finish_keeps (hadds.quiet_append ((hq₁.append hq₃).append hq₅)) h₁₀
      simpa only [List.append_assoc] using hall

end Runner

end Stepflow
