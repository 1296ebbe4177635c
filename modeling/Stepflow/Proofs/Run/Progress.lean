import Stepflow.Proofs.Run.Completion
import Stepflow.Proofs.Run.Step
import Stepflow.Run.Workflow

/-!
# From step to step

A run stands at a place between two of its steps, and takes the next one from there. `Along` says what
lies between two places: the results, outputs and compensations that the second has in addition are
those of the steps taken in between, and they are what the exchanges leave. One step is `Along.step`;
`Along.trans` puts one step and the way from there together.
-/

namespace Stepflow

open Script

variable {κ : Type} {r : Runner κ} {s : Step} {ss : List Step} {p p' p'' : Place} {t u : Trace κ}

theorem Context.setOutputs_append (c : Context) (as bs : List (String × Value)) :
    c.setOutputs (as ++ bs) = (c.setOutputs as).setOutputs bs := List.foldl_append

namespace StepResult

/-- What results record that are those of steps one by one. -/
def recordedAlong : List Step → List StepResult → Effects
  | s :: ss, result :: results => result.recorded s ++ recordedAlong ss results
  | _, _ => .empty

@[simp] theorem recordedAlong_nil (ss : List Step) : recordedAlong ss [] = .empty := by
  cases ss <;> rfl

theorem recordedAlong_singleton (s : Step) (ss : List Step) (result : StepResult) :
    recordedAlong (s :: ss) [result] = result.recorded s := by
  rw [recordedAlong, recordedAlong_nil, Effects.append_empty]

end StepResult

/-- **The way from one place to another** along some steps: the exchanges `t`, with the completions
`cs` and the results `new`. -/
structure Along (r : Runner κ) (ss : List Step) (p : Place) (t : Trace κ) (p' : Place)
    (new : List StepResult) (cs : List Completion) (e : Effects) : Prop where
  /-- The results grow by those of the steps taken. -/
  results : p'.results = p.results ++ new
  /-- These have the names of the steps. -/
  names : new.map StepResult.name <+: ss.map Step.name
  /-- The context grows by the outputs. -/
  context : p'.context = p.context.setOutputs e.outputs
  /-- What is owed grows by the compensations. -/
  owed : p'.owed = p.owed ++ e.compensations
  /-- The run tells nothing of account meanwhile. -/
  calm : t.Calm
  /-- Nor does it compensate. -/
  idle : t.compensating = []
  /-- The steps are numbered by the results before them. -/
  layers : ∀ l ∈ t.layers, ∃ k, p.results.length ≤ k ∧ k < p'.results.length ∧ l = .declared k
  /-- What the exchanges leave is what was added. -/
  kept : Kept r (∀ s ∈ ss, s.Distinct r) t cs e (StepResult.recordedAlong ss new)

namespace Trace

@[simp] theorem compensating_append (t u : Trace κ) :
    (t ++ u).compensating = t.compensating ++ u.compensating := by
  rw [compensating, own_append, List.filter_append]
  rfl

@[simp] theorem compensating_into (t : Trace κ) (l : Layer) : (t.into l).compensating = [] := by
  rw [compensating, own_into]
  rfl

end Trace

/-- A quiet request that has no part in a compensation either. -/
def Inquiry.IsIdle (q : Inquiry κ) : Prop := q.IsQuiet ∧ q.request.isCompensating = false

theorem Inquiry.isIdle_of_site {request : Request κ} (hr : request.isCompensating = false)
    (hc : Inquiry.Calm { request }) : Inquiry.IsIdle { request } := ⟨⟨rfl, hc⟩, hr⟩

/-- The trace is quiet and has no part in a compensation. -/
structure Trace.Idle (t : Trace κ) : Prop where
  /-- It is quiet. -/
  quiet : t.Quiet
  /-- It does nothing that a compensation does. -/
  compensating : t.compensating = []

theorem Trace.Idle.of_asksOnly {α : Type} {s : RunScript κ α} {a : α}
    (hs : s.AsksOnly Inquiry.IsIdle) (ht : s.Traces t a) : t.Idle where
  quiet := .of_asksOnly (hs.mono fun _ h => h.1) ht
  compensating := List.filter_eq_nil_iff.2 fun e he => by
    have := (hs.of_traces ht e (List.mem_filter.1 he).1).2
    simp [this]

theorem Trace.Idle.append (ht : t.Idle) (hu : u.Idle) : (t ++ u).Idle :=
  ⟨ht.quiet.append hu.quiet, by rw [compensating_append, ht.compensating, hu.compensating]; rfl⟩

namespace Along

variable {new new' : List StepResult} {cs ds : List Completion} {e e' : Effects}

/-- Nothing lies between a place and itself. -/
theorem idle_self (h : t.Idle) (ss : List Step) (p : Place) : Along r ss p t p [] [] .empty where
  results := (List.append_nil _).symm
  names := List.nil_prefix
  context := rfl
  owed := (List.append_nil _).symm
  calm := h.quiet.calm
  idle := h.compensating
  layers l hl := by
    rw [h.quiet.layers] at hl
    contradiction
  kept := by
    rw [StepResult.recordedAlong_nil]
    exact ⟨.nil h.quiet.calm h.quiet.layers, .nil⟩

/-- **One step taken.** -/
theorem step {run : RunScript κ StepOutcome} {o : StepOutcome} (hk : s.Keeps r run)
    (h : (run.under (.declared p.results.length)).Traces t o) (ss : List Step) :
    ∃ cs, Along r (s :: ss) p t (p.after o) [o.result] cs o.effects := by
  obtain ⟨u, hu, rfl⟩ := RunScript.traces_under.1 h
  obtain ⟨hname, cs, hkept⟩ := hk u o hu
  refine ⟨cs.map (Completion.into (.declared p.results.length)), rfl, ?_, rfl, rfl,
    Trace.calm_into u _, Trace.compensating_into u _, fun l hl => ?_, ?_⟩
  · rw [List.map_singleton, List.map_cons, hname]
    exact List.cons_prefix_cons.2 ⟨rfl, List.nil_prefix⟩
  · refine ⟨p.results.length, Nat.le_refl _, ?_, Trace.mem_layers_into hl⟩
    simp [Place.after]
  · rw [StepResult.recordedAlong_singleton]
    exact (hkept.into (l := .declared _) nofun).mono fun hd => hd s List.mem_cons_self

/-- **One step and then the way on.** -/
theorem trans {result : StepResult} (h : Along r (s :: ss) p t p' [result] cs e)
    (h' : Along r ss p' u p'' new ds e') :
    Along r (s :: ss) p (t ++ u) p'' (result :: new) (cs ++ ds) (e ++ e') where
  results := by rw [h'.results, h.results, List.append_assoc]; rfl
  names := by
    have hname : result.name = s.name := by
      have := h.names
      rw [List.map_singleton, List.map_cons, List.cons_prefix_cons] at this
      exact this.1
    rw [List.map_cons, List.map_cons, hname]
    exact List.cons_prefix_cons.2 ⟨rfl, h'.names⟩
  context := by rw [h'.context, h.context, Effects.outputs_append, Context.setOutputs_append]
  owed := by rw [h'.owed, h.owed, Effects.compensations_append, List.append_assoc]
  calm := h.calm.append h'.calm
  idle := by rw [Trace.compensating_append, h.idle, h'.idle]; rfl
  layers l hl := by
    have hlen : p'.results.length = p.results.length + 1 := by simp [h.results]
    have hlen' : p''.results.length = p'.results.length + new.length := by simp [h'.results]
    rw [Trace.layers_append, List.mem_append] at hl
    obtain hl | hl := hl
    · obtain ⟨k, hk, hk', rfl⟩ := h.layers l hl
      exact ⟨k, hk, by omega, rfl⟩
    · obtain ⟨k, hk, hk', rfl⟩ := h'.layers l hl
      exact ⟨k, by omega, hk', rfl⟩
  kept := by
    -- declared steps are numbered by the results so far
    have hbefore : ∀ l ∈ t.layers, ∀ m ∈ u.layers, l.Before m := fun l hl m hm => by
      obtain ⟨j, _, hj, rfl⟩ := h.layers l hl
      obtain ⟨k, hk, _, rfl⟩ := h'.layers m hm
      exact Nat.lt_of_lt_of_le hj hk
    have hstep := h.kept
    rw [StepResult.recordedAlong_singleton] at hstep
    rw [StepResult.recordedAlong]
    refine hstep.join (h'.kept.mono fun hd i hi => hd i (List.mem_cons_of_mem _ hi))
      (.append h.calm h'.calm hbefore) (.inl fun k hk => ?_)
    obtain ⟨_, _, _, hk⟩ := h.layers _ hk
    contradiction

/-- Idle exchanges before the way change nothing. -/
theorem idle_append (ht : t.Idle) (h : Along r ss p u p' new cs e) :
    Along r ss p (t ++ u) p' new cs e where
  results := h.results
  names := h.names
  context := h.context
  owed := h.owed
  calm := ht.quiet.calm.append h.calm
  idle := by rw [Trace.compensating_append, ht.compensating, h.idle]; rfl
  layers l hl := by
    rw [Trace.layers_append, ht.quiet.layers] at hl
    exact h.layers l hl
  kept := by
    have hnil : Kept r (∀ s ∈ ss, s.Distinct r) t [] .empty .empty :=
      ⟨.nil ht.quiet.calm ht.quiet.layers, .nil⟩
    refine hnil.join h.kept (.append ht.quiet.calm h.calm fun l hl => ?_) (.inl fun k hk => ?_)
    · rw [ht.quiet.layers] at hl
      contradiction
    · rw [ht.quiet.layers] at hk
      contradiction

/-- Nor do idle exchanges after it. -/
theorem append_idle (h : Along r ss p t p' new cs e) (hu : u.Idle) :
    Along r ss p (t ++ u) p' new cs e where
  results := h.results
  names := h.names
  context := h.context
  owed := h.owed
  calm := h.calm.append hu.quiet.calm
  idle := by rw [Trace.compensating_append, h.idle, hu.compensating]; rfl
  layers l hl := by
    rw [Trace.layers_append, hu.quiet.layers, List.append_nil] at hl
    exact h.layers l hl
  kept := by
    have hnil : Kept r (∀ s ∈ ss, s.Distinct r) u [] .empty .empty :=
      ⟨.nil hu.quiet.calm hu.quiet.layers, .nil⟩
    have hjoin := h.kept.join hnil (.append h.calm hu.quiet.calm fun l _ m hm => ?_)
      (.inr fun k hk => ?_)
    · rwa [List.append_nil, Effects.append_empty, Effects.append_empty] at hjoin
    · rw [hu.quiet.layers] at hm
      contradiction
    · rw [hu.quiet.layers] at hk
      contradiction

end Along

end Stepflow

/-!
## How runs end

A run that has taken its steps settles what it owes and tells that it has come to its end. What it
exchanges on the way is read off here, for every ending: a run that failed calls one compensation after
the other, each whatever became of the one before, and no other run calls any.
-/

namespace Stepflow

open Script

variable {κ : Type} {r : Runner κ} {t : Trace κ}

namespace RunScript

/-- A request at no layer has one entry. -/
theorem traces_ofRequest {request : Request κ} {x : request.Answer} :
    (RunScript.request request).Traces t x ↔ t = [.of request x] := traces_request

/-- The call of a component has two entries. -/
theorem traces_call {space : Namespace} {name : String} {component : κ} {input : Input}
    {reply : Except String Reply} (h : (call space name component input).Traces t reply) :
    ∃ call : Call, t = [.of (.begin space name component input) call,
      .of (.collect call.ticket) reply] := by
  obtain ⟨t₁, t₂, x, h₁, h₂, rfl⟩ := traces_andThen.1 h
  obtain ⟨t₃, t₄, _, h₃, h₄, rfl⟩ := traces_andThen.1 h₂
  obtain rfl := traces_ofRequest.1 h₁
  obtain rfl := traces_pauses.1 h₃
  obtain rfl := traces_ofRequest.1 h₄
  exact ⟨x, rfl⟩

end RunScript

namespace Runner

/-! ### Compensations -/

/-- **Calling a compensation.** -/
theorem compensate_invokes {owed : Compensation} {error : Option String}
    (h : (r.compensate owed).Traces t error) : r.Invokes owed t error := by
  obtain ⟨t₁, t₂, x, h₁, h₂, rfl⟩ := traces_andThen.1 h
  obtain ⟨t₃, t₄, found, h₃, h₄, rfl⟩ := traces_andThen.1 h₁
  unfold Invokes
  rw [find] at h₃
  cases hfound : r.registry.resolve .callables owed.action with
  | found component =>
    rw [hfound] at h₃
    obtain ⟨rfl, rfl⟩ := traces_done.1 h₃
    obtain ⟨t₅, t₆, reply, h₅, h₆, rfl⟩ := traces_andThen.1 h₄
    obtain ⟨rfl, rfl⟩ := traces_done.1 h₆
    obtain ⟨call, rfl⟩ := RunScript.traces_call h₅
    refine ⟨call, reply, ?_⟩
    cases reply <;> obtain ⟨rfl, rfl⟩ := traces_done.1 h₂ <;> exact ⟨rfl, rfl⟩
  | standIn e =>
    rw [hfound] at h₃
    obtain ⟨t₅, t₆, _, h₅, h₆, rfl⟩ := traces_andThen.1 h₃
    obtain ⟨rfl, rfl⟩ := traces_done.1 h₆
    obtain rfl := RunScript.traces_ofRequest.1 h₅
    obtain ⟨t₇, t₈, reply, h₇, h₈, rfl⟩ := traces_andThen.1 h₄
    obtain ⟨rfl, rfl⟩ := traces_done.1 h₇
    obtain ⟨rfl, rfl⟩ := traces_done.1 h₈
    obtain ⟨rfl, rfl⟩ := traces_done.1 h₂
    exact ⟨rfl, rfl⟩
  | missing e =>
    rw [hfound] at h₃
    obtain ⟨rfl, rfl⟩ := traces_done.1 h₃
    obtain ⟨rfl, rfl⟩ := traces_done.1 h₄
    obtain ⟨rfl, rfl⟩ := traces_done.1 h₂
    exact ⟨rfl, rfl⟩

/-- **Calling one compensation after the other.** -/
theorem rollback_compensates {workflow : String} {owed : List Compensation}
    (h : (r.rollback workflow owed).Traces t ()) : r.Compensates workflow owed t := by
  induction owed generalizing t with
  | nil =>
    obtain ⟨rfl, -⟩ := traces_done.1 h
    exact .nil
  | cons c rest ih =>
    obtain ⟨t₁, t₂, _, h₁, h₂, rfl⟩ := traces_andThen.1 h
    obtain ⟨t₃, t₄, error, h₃, h₄, rfl⟩ := traces_andThen.1 h₂
    obtain ⟨t₅, t₆, _, h₅, h₆, rfl⟩ := traces_andThen.1 h₄
    obtain rfl := RunScript.traces_ofRequest.1 h₁
    obtain rfl := RunScript.traces_ofRequest.1 h₅
    exact .cons (compensate_invokes h₃) (ih h₆)

/-- The entries of the call of a compensation are at no layer and part of the compensation; none of
them starts another. -/
theorem Invokes.entries {c : Compensation} {error : Option String} (h : r.Invokes c t error) :
    ∀ e ∈ t, e.request.site = [] ∧ e.request.step = none ∧ e.request.request.isCompensating ∧
      e.rollback? = none := by
  unfold Invokes at h
  split at h
  · obtain ⟨call, reply, rfl, -⟩ := h
    simp [Entry.of, Request.isCompensating, Entry.rollback?]
  · obtain ⟨rfl, -⟩ := h
    simp [Entry.of, Request.isCompensating, Entry.rollback?]
  · obtain ⟨rfl, -⟩ := h
    simp

variable {workflow : String} {owed : List Compensation}

/-- So are all entries of compensations. -/
theorem Compensates.entries (h : r.Compensates workflow owed t) :
    ∀ e ∈ t, e.request.site = [] ∧ e.request.step = none ∧ e.request.request.isCompensating := by
  induction h with
  | nil => simp
  | cons hc _ ih =>
    intro e he
    simp only [List.mem_cons, List.mem_append] at he
    obtain rfl | he | rfl | he := he
    · exact ⟨rfl, rfl, rfl⟩
    · obtain ⟨hs, hn, hi, -⟩ := hc.entries e he
      exact ⟨hs, hn, hi⟩
    · exact ⟨rfl, rfl, rfl⟩
    · exact ih e he

/-- **Each compensation is started once**, in the order given. -/
theorem Compensates.rollbacks (h : r.Compensates workflow owed t) :
    t.rollbacks = owed.map Compensation.notice := by
  induction h with
  | nil => rfl
  | @cons c rest t u error hc _ ih =>
    have hnone : Trace.rollbacks t = [] :=
      List.filterMap_eq_nil_iff.2 fun e he => (hc.entries e he).2.2.2
    show (Trace.rollbacks (_ :: _)) = _
    rw [Trace.rollbacks, List.filterMap_cons, List.map_cons, ← ih]
    show _ :: Trace.rollbacks (t ++ _ :: u) = _
    rw [Trace.rollbacks_append, hnone]
    rfl

end Runner

end Stepflow
