import Stepflow.Proofs.Run.Trace
import Stepflow.Run.Component

/-!
# What calling components asks

Everything that a try of a step does besides running the steps inside it is put together from a few
requests, all made at the site of the try: components are called, unknown names recorded, and it is
asked whether all is cancelled. `Inquiry.IsWork` names them. Nor does a try wait for anything before
its first request.
-/

namespace Stepflow

open Script

variable {κ : Type} {α β : Type} {p : Inquiry κ → Prop}

/-- A request by which a try of a step does its work: one that tells and saves nothing. -/
inductive Inquiry.IsWork : Inquiry κ → Prop
  | isCancelled : IsWork { request := .isCancelled }
  | now : IsWork { request := .now }
  | jitter : IsWork { request := .jitter }
  | begin (space : Namespace) (name : String) (component : κ) (input : Input) :
      IsWork { request := .begin space name component input }
  | collect (ticket : Nat) : IsWork { request := .collect ticket }
  | defer (e : RegistryError) : IsWork { request := .defer e }

/-- A request by which a component is called, or the name of an unknown one recorded. -/
inductive Inquiry.IsCall : Inquiry κ → Prop
  | begin (space : Namespace) (name : String) (component : κ) (input : Input) :
      IsCall { request := .begin space name component input }
  | collect (ticket : Nat) : IsCall { request := .collect ticket }
  | defer (e : RegistryError) : IsCall { request := .defer e }

theorem Inquiry.IsCall.isWork {q : Inquiry κ} (hq : q.IsCall) : q.IsWork := by
  cases hq with
  | begin space name component input => exact .begin space name component input
  | collect ticket => exact .collect ticket
  | defer e => exact .defer e

/-- An event that a step tells of itself. -/
inductive Event.IsOfStep : Event → Prop
  | started (workflow step : String) (type : StepType) : IsOfStep (.stepStarted workflow step type)
  | completed (workflow : String) (result : StepResult) : IsOfStep (.stepCompleted workflow result)

/-- **A property of scripts** that holds of all that is put together from component calls as soon as it
holds of these. -/
structure RunScript.Compositional (P : (α : Type) → RunScript κ α → Prop) : Prop where
  /-- It holds of what is done. -/
  done : ∀ {α : Type} (a : α), P α (.done a)
  /-- It holds of scripts one after the other. -/
  andThen : ∀ {α β : Type} {s : RunScript κ α} {f : α → RunScript κ β}, P α s → (∀ a, P β (f a)) →
    P β (s.andThen f)
  /-- It holds of recording a name. -/
  defer : ∀ e : RegistryError, P Unit (RunScript.request (.defer e))
  /-- It holds of calling a component. -/
  call : ∀ (space : Namespace) (name : String) (component : κ) (input : Input),
    P _ (RunScript.call space name component input)

/-- The script begins with a request or is done, and all its requests have a property. -/
structure RunScript.Works (p : Inquiry κ → Prop) (s : RunScript κ α) : Prop where
  /-- It does not wait first. -/
  prompt : s.Prompt
  /-- It asks nothing else. -/
  asks : s.AsksOnly p

namespace RunScript.Works

theorem done (a : α) : Works p (.done a) := ⟨trivial, trivial⟩

theorem andThen {s : RunScript κ α} {f : α → RunScript κ β} (hs : s.Works p)
    (hf : ∀ a, (f a).Works p) : Works p (s.andThen f) :=
  ⟨hs.prompt.andThen fun a => (hf a).prompt, hs.asks.andThen fun a => (hf a).asks⟩

theorem under {l : Layer} {s : RunScript κ α} (h : s.Works fun q => p (q.into l)) :
    (s.under l).Works p := ⟨prompt_under h.prompt, asksOnly_under h.asks⟩

theorem isCancelled (hp : ∀ q : Inquiry κ, q.IsWork → p q) : RunScript.isCancelled.Works p :=
  ⟨trivial, hp _ .isCancelled, fun _ => trivial⟩

variable (hp : ∀ q : Inquiry κ, q.IsCall → p q)

include hp

theorem defer (e : RegistryError) : (RunScript.request (.defer e)).Works p :=
  ⟨trivial, hp _ (.defer e), fun _ => trivial⟩

/-- Waiting for a component happens after its call began. -/
theorem call (space : Namespace) (name : String) (component : κ) (input : Input) :
    (RunScript.call space name component input).Works p := by
  refine ⟨trivial, hp _ (.begin space name component input), fun x => ?_⟩
  exact (asksOnly_pauses x.pauses).andThen fun _ => asksOnly_request.2 (hp _ (.collect x.ticket))

/-- So what is put together from calls works. -/
theorem compositional : RunScript.Compositional fun α (s : RunScript κ α) => s.Works p where
  done := done
  andThen := andThen
  defer := defer hp
  call := call hp

end RunScript.Works

/-! ## Parts of steps that can fail -/

/-- A part of a step that can fail works. -/
abbrev StepScript.Works (p : Inquiry κ → Prop) (x : StepScript κ α) : Prop :=
  RunScript.Works p x.run

namespace RunScript.Compositional

variable {P : (α : Type) → RunScript κ α → Prop} (hP : Compositional P) (r : Runner κ)

include hP

theorem bind {x : StepScript κ α} {f : α → StepScript κ β} (hx : P _ x.run)
    (hf : ∀ a, P _ (f a).run) : P _ (x >>= f).run := by
  refine hP.andThen hx fun a => ?_
  cases a with
  | ok a => exact hf a
  | error e => exact hP.done _

theorem resolved (x : Except Expression.Failure α) :
    P _ (Runner.resolved x : StepScript κ α).run := hP.done _

theorem find (space : Namespace) (name : String) : P _ (r.find space name).run := by
  unfold Runner.find
  rw [ExceptT.run_mk]
  split
  · exact hP.done _
  · exact hP.andThen (hP.defer _) fun _ => hP.done _
  · exact hP.done _

theorem callFound (space : Namespace) (name : String) (component : Option κ) (input : Input) :
    P _ (Runner.call space name component input) := by
  cases component with
  | none => exact hP.done _
  | some component => exact hP.call space name component input

theorem reply (space : Namespace) (name : String) (component : Option κ) (input : Input) :
    P _ (Runner.reply space name component input).run :=
  hP.andThen (hP.callFound space name component input) fun _ => hP.done _

theorem callAction (c : Context) (action : String) (args : List Value) (kwargs : Fields) :
    P _ (r.callAction c action args kwargs).run :=
  hP.bind (hP.find r _ _) fun _ => hP.bind (hP.resolved _) fun _ => hP.bind (hP.resolved _) fun _ =>
    hP.bind (hP.reply _ _ _ _) fun _ => hP.done _

theorem buildContext (c : Context) (inline : Fields) (builder : Option String) :
    P _ (r.buildContext c inline builder).run := by
  refine hP.bind (hP.resolved _) fun seed => ?_
  cases builder with
  | none => exact hP.done _
  | some name =>
    exact hP.bind (hP.find r _ _) fun _ => hP.bind (hP.reply _ _ _ _) fun _ => hP.done _

theorem runAgent (c : Context) (agent : String) (inline : Fields) (builder : Option String) :
    P _ (r.runAgent c agent inline builder).run := by
  refine hP.bind (hP.find r _ _) fun _ => hP.bind (hP.buildContext r c inline builder) fun _ =>
    hP.bind (hP.reply _ _ _ _) fun reply => ?_
  split <;> exact hP.done _

theorem runGenerator (c : Context) (generator : String) (inline : Fields)
    (builder : Option String) : P _ (r.runGenerator c generator inline builder).run :=
  hP.bind (hP.find r _ _) fun _ => hP.bind (hP.buildContext r c inline builder) fun _ =>
    hP.bind (hP.reply _ _ _ _) fun _ => hP.done _

theorem runStages (stages : List String) : P _ (r.runStages stages).run := by
  induction stages with
  | nil => exact hP.done _
  | cons stage rest ih =>
    refine hP.bind (hP.find r _ _) fun callable => hP.bind (x := ExceptT.lift _) ?_ fun x => ?_
    · exact hP.andThen (hP.callFound _ _ _ _) fun _ => hP.done _
    · split
      · exact hP.done _
      · exact ih

theorem compensate (owed : Compensation) : P _ (r.compensate owed) := by
  refine hP.andThen (hP.bind (hP.find r .callables owed.action) fun callable => ?_) fun x => ?_
  · exact hP.andThen (hP.callFound _ _ _ _) fun _ => hP.done _
  · split <;> exact hP.done _

theorem findWorkflow (name : String) : P _ (r.findWorkflow name).run := by
  unfold Runner.findWorkflow
  rw [ExceptT.run_mk]
  split
  · exact hP.done _
  · exact hP.andThen (hP.defer _) fun _ => hP.done _
  · exact hP.done _

theorem prepare (c : Context) (scope : Scope) (workflow : String) (inputs : Fields) :
    P _ (r.prepare c scope workflow inputs).run := by
  refine hP.bind (hP.findWorkflow r workflow) fun w => ?_
  dsimp only
  split
  · exact hP.done _
  · refine hP.bind (hP.resolved _) fun inputs => ?_
    split <;> exact hP.done _

end RunScript.Compositional

/-! ## What becomes of them -/

namespace StepScript

/-- A part that goes on and succeeds has succeeded before. -/
theorem traces_bind_ok {x : StepScript κ α} {f : α → StepScript κ β} {t : Trace κ} {b : β}
    (h : (x >>= f).run.Traces t (.ok b)) :
    ∃ t₁ t₂ a, x.run.Traces t₁ (.ok a) ∧ (f a).run.Traces t₂ (.ok b) ∧ t = t₁ ++ t₂ := by
  obtain ⟨t₁, t₂, a | a, h₁, h₂, rfl⟩ := traces_andThen.1 h
  · exact absurd (traces_done.1 h₂).2 nofun
  · exact ⟨t₁, t₂, a, h₁, h₂, rfl⟩

end StepScript

namespace Runner

variable {r : Runner κ}

/-- A workflow that is found is registered, or stands in for one that is not. -/
theorem findWorkflow_ok {name : String} {t : Trace κ} {w : Workflow}
    (h : (r.findWorkflow name).run.Traces t (.ok w)) :
    r.registry.workflows.get? name = some w ∨
      r.registry.workflows.get? name = none ∧ w = Registry.placeholder name := by
  unfold findWorkflow at h
  rw [ExceptT.run_mk] at h
  cases hg : r.registry.workflows.get? name with
  | some found =>
    rw [Registry.resolveWorkflow, hg] at h
    injection (traces_done.1 h).2 with hw
    exact .inl (congrArg some hw.symm)
  | none =>
    refine .inr ⟨rfl, ?_⟩
    rw [Registry.resolveWorkflow, hg] at h
    by_cases hl : r.registry.lenient = true
    · simp only [Registry.resolveWith, if_pos hl] at h
      obtain ⟨_, _, _, _, h, _⟩ := traces_andThen.1 h
      injection (traces_done.1 h).2
    · simp only [Registry.resolveWith, if_neg hl] at h
      exact absurd (traces_done.1 h).2 nofun

/-- The workflow that a step runs is the one that its name finds. -/
theorem prepare_ok {c : Context} {scope : Scope} {workflow : String} {inputs : Fields} {t : Trace κ}
    {w : Workflow} {resolved : Fields}
    (h : (r.prepare c scope workflow inputs).run.Traces t (.ok (w, resolved))) :
    r.registry.workflows.get? workflow = some w ∨
      r.registry.workflows.get? workflow = none ∧ w = Registry.placeholder workflow := by
  obtain ⟨t₁, t₂, w', h₁, h₂, rfl⟩ := StepScript.traces_bind_ok h
  obtain rfl : w = w' := by
    dsimp only at h₂
    split at h₂
    · exact absurd (traces_done.1 h₂).2 nofun
    · obtain ⟨_, _, inputs, _, h₂, _⟩ := StepScript.traces_bind_ok h₂
      split at h₂
      · exact absurd (traces_done.1 h₂).2 nofun
      · injection (traces_done.1 h₂).2 with hw
        injection hw
  exact findWorkflow_ok h₁

end Runner

end Stepflow
