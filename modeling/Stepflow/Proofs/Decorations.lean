import Stepflow.Proofs.Compensation
import Stepflow.Proofs.Run.Parts

/-!
# The order of the decorations

Around what its kind does, a step has a condition, a retry policy, a fallback and a pardon for failures,
in this order: each looks only at what the one before it came to. `Decorated` tells the ways through
them, and every history of a step goes one of these ways. Whatever the way, what the step leaves behind
are the effects of the steps that were completed inside it, and then its own if it was completed
(`LeavesLast`). The main statement is `step_decorated`.
-/

namespace Stepflow

open Script

variable {κ : Type} {r : Runner κ} {execute : Execute κ} {c : Context} {scope : Scope} {s f : Step}
  {among : Layer → Prop} {t : Trace κ} {h k : History (Inquiry κ) Inquiry.Answer} {o : StepOutcome}
  {a a' : Attempt} {e : StepError} {n : Nat}

theorem StepError.isCancelled_iff : e.isCancelled = true ↔ e = .cancelled := by
  cases e <;> simp [isCancelled]

/-! ## The condition -/

/-- **A step is held back** by its condition: for no reason if it does not hold, and for what is wrong
with it if it cannot be evaluated. -/
def Step.HeldBack (s : Step) (c : Context) (reason : Option String) : Prop :=
  ∃ e ∈ s.condition, (e.holds c = .ok false ∧ reason = none) ∨
    ∃ f, e.holds c = .error f ∧ reason = some f.message

theorem Step.skipReason?_eq_some_iff {reason : Option String} :
    s.skipReason? c = some reason ↔ s.HeldBack c reason := by
  rw [skipReason?, HeldBack]
  cases s.condition with
  | none => simp
  | some e =>
    dsimp only
    cases he : e.holds c with
    | ok b => cases b <;> simp [he, eq_comm]
    | error f => simp [he, eq_comm]

/-- A step is not held back where there is no reason to skip it. -/
theorem Step.skipReason?_eq_none_iff : s.skipReason? c = none ↔ ∀ reason, ¬s.HeldBack c reason := by
  rw [Option.eq_none_iff_forall_ne_some]
  exact forall_congr' fun reason => not_congr skipReason?_eq_some_iff

namespace Runner

/-! ## The fallback -/

/-- **What a fallback makes of its step**, which failed with an error: if the fallback succeeds, so does
the step, with the output of the fallback. -/
inductive Replaces (f : Step) (e : StepError) (o : StepOutcome) : Except StepError Value → Prop
  | succeeded : o.result.success → Replaces f e o (.ok o.result.output)
  | cancelled : o.result.status = .cancelled → Replaces f e o (.error .cancelled)
  /-- The error names both failures. -/
  | failed : o.result.status = .failed →
      Replaces f e o (.error (.fallback f.name (o.result.error.getD "") e.message))

/-- **What comes of the tries** of a step. The fallback is run once, in the same context, if they failed
and there is one; its result and its effects come after those of the tries. -/
inductive Recovers (r : Runner κ) (execute : Execute κ) (c : Context) (scope : Scope) (s : Step)
    (a : Attempt) : History (Inquiry κ) Inquiry.Answer → Attempt → Prop
  /-- No fallback is run: the tries succeeded or were cancelled, or there is none. -/
  | kept : (a.isFailure → s.onError = none) → Recovers r execute c scope s a [] a
  | replaced {e : StepError} {f : Step} {o : StepOutcome} {outcome : Except StepError Value}
      {k : History (Inquiry κ) Inquiry.Answer} : a.outcome = .error e → e ≠ .cancelled →
      s.onError = some f → ((r.step execute c scope f).under .fallback).Unfolds k o →
      Replaces f e o outcome →
      Recovers r execute c scope s a k
        { outcome, fixes := a.fixes, children := a.children ++ [o.result]
          effects := a.effects ++ o.effects }

theorem replaces_outcomeWith (f : Step) (e : StepError) (o : StepOutcome) :
    Replaces f e o (o.outcomeWith fun error => .fallback f.name error e.message) := by
  have hsuccess : o.result.success = o.result.status.isSuccess := rfl
  unfold StepOutcome.outcomeWith
  cases hstatus : o.result.status with
  | cancelled => exact .cancelled hstatus
  | failed =>
    rw [if_neg nofun, if_neg (by rw [hsuccess, hstatus]; exact nofun)]
    exact .failed hstatus
  | passed | fixed | skipped =>
    have hyes : o.result.success := by rw [hsuccess, hstatus]; rfl
    rw [if_neg nofun, if_pos hyes]
    exact .succeeded hyes

theorem recovering_unfolds
    (u : (recovering (s.onError.map (r.plan execute c scope)) a).Unfolds h a') :
    Recovers r execute c scope s a h a' := by
  have hkept (hnone : a.isFailure → s.onError = none)
      (u : (Script.done a : RunScript κ Attempt).Unfolds h a') :
      Recovers r execute c scope s a h a' := by
    obtain ⟨rfl, rfl⟩ := unfolds_done.1 u
    exact .kept hnone
  unfold recovering at u
  split at u
  · rename_i p e hp he
    split at u
    · rename_i hcancelled
      refine hkept (fun hfailed => ?_) u
      rw [Attempt.isFailure, he] at hfailed
      simp [hcancelled] at hfailed
    · rename_i hnot
      obtain ⟨f, hf, rfl⟩ := Option.map_eq_some_iff.1 hp
      obtain ⟨o, ufallback, rfl⟩ := unfolds_andThen_done.1 u
      have hcancelled : e ≠ .cancelled := fun heq => hnot (StepError.isCancelled_iff.2 heq)
      exact .replaced he hcancelled hf ufallback (replaces_outcomeWith f e o)
  · rename_i hneither
    refine hkept (fun hfailed => ?_) u
    cases he : a.outcome with
    | ok v =>
      rw [Attempt.isFailure, he] at hfailed
      contradiction
    | error e =>
      cases hf : s.onError with
      | none => rfl
      | some f => exact absurd he (hneither _ e (by rw [hf]; rfl))

/-! ## The end -/

end Runner

/-- The result of a step that was tried, without its output and its error. -/
def Step.reported (s : Step) (a : Attempt) (tries durationMs : Nat) (status : StepStatus) : StepResult :=
  { name := s.name, type := s.type, status, durationMs, children := a.children
    attempts := if s.type = .validate then a.fixes else tries }

/-- **How a step that was tried ends.** A failure is kept with its error in any case; whether the step
counts as failed or as skipped is told by the pardon. -/
inductive Step.Closes (s : Step) (a : Attempt) (tries durationMs : Nat) : StepOutcome → Prop
  | completed {v : Value} : a.outcome = .ok v → Closes s a tries durationMs
      { result :=
          { s.reported a tries durationMs (if a.fixes = 0 then .passed else .fixed) with output := v }
        effects := a.effects ++ .ofCompleted s v }
  | cancelled : a.outcome = .error .cancelled → Closes s a tries durationMs
      { result := s.reported a tries durationMs .cancelled, effects := a.effects }
  | pardoned {e : StepError} : a.outcome = .error e → e ≠ .cancelled → s.skipOnError = true →
      Closes s a tries durationMs
        { result := { s.reported a tries durationMs .skipped with error := some e.message }
          effects := a.effects }
  | failed {e : StepError} : a.outcome = .error e → e ≠ .cancelled → s.skipOnError = false →
      Closes s a tries durationMs
        { result := { s.reported a tries durationMs .failed with error := some e.message }
          effects := a.effects }

theorem Step.conclude_closes (s : Step) (a : Attempt) (tries d : Nat) :
    s.Closes a tries d
      { s.conclude a tries with result := { (s.conclude a tries).result with durationMs := d } } := by
  unfold conclude
  cases houtcome : a.outcome with
  | ok v => exact .completed houtcome
  | error e =>
    dsimp only
    cases hcancelled : e.isCancelled with
    | true =>
      obtain rfl := StepError.isCancelled_iff.1 hcancelled
      exact .cancelled houtcome
    | false =>
      have hnot : e ≠ .cancelled := fun heq => by
        rw [StepError.isCancelled_iff.2 heq] at hcancelled
        contradiction
      cases hskip : s.skipOnError with
      | true => exact .pardoned houtcome hnot hskip
      | false => exact .failed houtcome hnot hskip

/-! ## The ways through -/

namespace Runner

/-- The turns in which a step takes the time and tells its result. -/
def endTurns (scope : Scope) (s : Step) (now : Nat) (result : StepResult) :
    History (Inquiry κ) Inquiry.Answer :=
  [.asked (Entry.of .now now), .asked (Entry.ofCompleted scope.workflow s result)]

/-- **The way of a step through its decorations**, and what it comes to. -/
inductive Decorated (r : Runner κ) (execute : Execute κ) (c : Context) (scope : Scope) (s : Step) :
    History (Inquiry κ) Inquiry.Answer → StepOutcome → Prop
  /-- Its condition holds it back: it is skipped, for the reason that the condition gives. Nothing in it
  is run. -/
  | heldBack {reason : Option String} {began now d : Nat} {result : StepResult} : s.HeldBack c reason →
      result = { StepResult.skipped s reason with durationMs := d } →
      Decorated r execute c scope s (.asked (Entry.of .now began) :: endTurns scope s now result)
        { result }
  /-- It is not held back, but all is cancelled before it starts. -/
  | cancelled {began now d : Nat} {result : StepResult} : (∀ reason, ¬s.HeldBack c reason) →
      result = { StepResult.cancelled s with durationMs := d } →
      Decorated r execute c scope s
        (.asked (Entry.of .now began) :: pollTurn true :: endTurns scope s now result) { result }
  /-- It starts. It is tried as its policy says, and its fallback may follow, which the tries do not
  run; then it ends. -/
  | tried {began now tries d : Nat} {a a' : Attempt} {o : StepOutcome}
      {h k : History (Inquiry κ) Inquiry.Answer} : (∀ reason, ¬s.HeldBack c reason) →
      (r.retried s.retryPolicy (r.kindOf execute c scope s.name s.kind)).Unfolds h (a, tries) →
      .fallback ∉ Trace.layers (exchanges h) → Recovers r execute c scope s a k a' →
      s.Closes a' tries d o →
      Decorated r execute c scope s
        (.asked (Entry.of .now began) :: pollTurn false :: startTurn scope s ::
          (h ++ (k ++ endTurns scope s now o.result))) o

/-- The tries of a step do not run its fallback. -/
theorem fallback_not_mem_layers {attempt : RunScript κ Attempt} {policy : Option RetryPolicy}
    (ht : (r.retried policy attempt).Traces t (a, n)) : .fallback ∉ t.layers := by
  intro hm
  obtain ⟨⟨k, -, hk⟩, -⟩ := retried_splits (P := fun _ _ => True) (fun _ _ _ _ => trivial) ht _ hm
  contradiction

theorem step_goes (u : (r.step execute c scope s).Unfolds h o) :
    Decorated r execute c scope s h o := by
  cases step_course u with
  | skipped hskip uend =>
    obtain ⟨now, d, rfl, rfl⟩ := finish_unfolds uend
    exact .heldBack (Step.skipReason?_eq_some_iff.1 hskip) rfl
  | cancelled hskip uend =>
    obtain ⟨now, d, rfl, rfl⟩ := finish_unfolds uend
    exact .cancelled (Step.skipReason?_eq_none_iff.1 hskip) rfl
  | @tried _ n _ a' _ _ _ _ hskip utries ufallback uend =>
    obtain ⟨now, d, rfl, rfl⟩ := finish_unfolds uend
    exact .tried (Step.skipReason?_eq_none_iff.1 hskip) utries (fallback_not_mem_layers utries.traces)
      (recovering_unfolds ufallback) (s.conclude_closes a' n d)

end Runner

/-! ## What a step leaves -/

/-- **What completions in a trace leave**: their outputs, those in nested runs left out, and the
compensations that no run inside the trace has settled. -/
def Trace.leftBy (t : Trace κ) (cs : List Completion) : Effects :=
  { outputs := (cs.filter fun c => c.site.isOwn).map Completion.entry
    compensations := owedFor (cs.filter fun c => !t.settled c.site) }

/-- **A step leaves its own last**: behind what was completed inside it, its own output and compensation
if it was completed itself, and nothing else if it was not. -/
def LeavesLast (s : Step) (t : Trace κ) (o : StepOutcome) : Prop :=
  ∃ inner, (∀ c ∈ inner, c.site ≠ []) ∧
    if o.result.status.isDone then
      t.Lists (inner ++ [⟨[], s, o.result.output⟩]) ∧
        o.effects = t.leftBy inner ++ .ofCompleted s o.result.output
    else t.Lists inner ∧ o.effects = t.leftBy inner

namespace Trace.Quiet

theorem cons {e : Entry κ} (he : e.request.IsQuiet) (ht : t.Quiet) : Quiet (e :: t) where
  calm := by
    intro x hx
    rw [own, List.mem_filter] at hx
    obtain rfl | hm := List.mem_cons.1 hx.1
    · exact he.2
    · exact ht.calm x (List.mem_filter.2 ⟨hm, hx.2⟩)
  layers := by
    rw [Trace.layers, List.filterMap_cons_none (by rw [he.1]; rfl)]
    exact ht.layers

theorem now {x : Nat} (ht : t.Quiet) : Quiet (Entry.of .now x :: t) :=
  ht.cons Inquiry.IsWork.now.isQuiet

end Trace.Quiet

/-- Once what happened inside a step is known, its end says what it leaves. -/
theorem Step.Adds.leavesLast {workflow : String} {effects : Effects}
    (hu : s.Adds r among t o.result.children effects)
    (he : o.effects =
      if o.result.status.isDone then effects ++ .ofCompleted s o.result.output else effects) :
    LeavesLast s (t.completing workflow s o.result) o := by
  obtain ⟨hc, -, cs, hk⟩ := hu
  have hleft : effects = (t.completing workflow s o.result).leftBy cs := by
    have houtputs := hk.memory.outputs_eq
    have howed := hk.ledger.owed_eq
    rw [Trace.leftBy]
    simp only [Trace.settled_completed hc, ← houtputs, ← howed]
  have hsites : ∀ d ∈ cs, d.site ≠ [] := by
    intro d hd
    obtain ⟨l, site, hsite, -⟩ := hk.ledger.lists.site_of_mem hc hd
    rw [hsite]
    exact List.cons_ne_nil _ _
  refine ⟨cs, hsites, ?_⟩
  rw [← hleft, he]
  cases hdone : o.result.status.isDone with
  | true => exact ⟨(hk.ledger.complete hc hdone).lists, rfl⟩
  | false => exact ⟨(hk.ledger.giveUp hc hdone).lists, rfl⟩

/-- A step that was tried keeps the results and the effects of its tries and its fallback, and adds its
own effects only if it is done. -/
theorem Step.Closes.keeps {d : Nat} (hs : s.Closes a n d o) : o.result.children = a.children ∧
    o.effects =
      if o.result.status.isDone then a.effects ++ .ofCompleted s o.result.output else a.effects := by
  cases hs with
  | completed _ =>
    refine ⟨rfl, (if_pos ?_).symm⟩
    dsimp only [reported]
    split <;> rfl
  | cancelled _ | pardoned _ _ _ | failed _ _ _ => exact ⟨rfl, rfl⟩

namespace Runner

/-- The end of a step tells what it leaves of all that happened before. -/
theorem finish_leavesLast {began : Nat} {o' : StepOutcome} {effects : Effects}
    (u : (finish scope s began o).Unfolds h o') (hu : s.Adds r among t o.result.children effects)
    (he : o.effects =
      if o.result.status.isDone then effects ++ .ofCompleted s o.result.output else effects) :
    LeavesLast s (t ++ exchanges h) o' := by
  obtain ⟨now, d, rfl, rfl⟩ := finish_unfolds u
  have hquiet : Trace.Quiet [(Entry.of .now now : Entry κ)] := .now .nil
  have hall := hu.append_quiet hquiet
  have hlast : LeavesLast s (Trace.completing (t ++ [Entry.of .now now]) scope.workflow s
      { o.result with durationMs := d }) { o with result := { o.result with durationMs := d } } :=
    Step.Adds.leavesLast hall he
  rwa [Trace.completing, List.append_assoc] at hlast

/-- **Every step leaves its own last.** -/
theorem step_leavesLast {levels : Nat} (u : (r.step (r.execute levels) c scope s).Unfolds h o) :
    LeavesLast s (exchanges h) o := by
  have hnone {t : Trace κ} (hq : t.Quiet) : s.Adds r (fun _ => False) t [] .empty := .quiet hq
  cases step_course u with
  | @skipped began _ _ _ _ uend =>
    have hquiet : Trace.Quiet [(Entry.of .now began : Entry κ)] := .now .nil
    exact finish_leavesLast uend (hnone hquiet) rfl
  | @cancelled began _ _ _ uend =>
    have hquiet : Trace.Quiet [(Entry.of .now began : Entry κ), .of .isCancelled true] :=
      .now (.cons Inquiry.IsWork.isCancelled.isQuiet .nil)
    exact finish_leavesLast uend (hnone hquiet) rfl
  | @tried began n a a' h k l _ _ utries ufallback uend =>
    have hnested : ∀ i ∈ s.nested, i.Keeps r (r.step (r.execute levels) c scope i) := fun i _ =>
      step_keeps (execute_keeps levels) (fun _ _ _ => execute_prompt levels) i c scope
    have hfits : ∀ f ∈ s.onError.map (r.plan (r.execute levels) c scope), f.Fits r s := by
      intro f hf
      obtain ⟨i, hi, rfl⟩ := Option.map_eq_some_iff.1 hf
      have hm : i ∈ s.nested := List.mem_append_right _ (Option.mem_toList.2 hi)
      exact ⟨hm, hnested i hm⟩
    have htries := retried_adds (kindOf_prompt fun _ _ _ => execute_prompt levels)
      (fun t a ht => kindOf_adds hnested (execute_keeps levels) ht) utries.traces
    have hboth := recovering_adds hfits htries ufallback.traces
    have hquiet : Trace.Quiet (exchanges
        [.asked (Entry.of .now began), pollTurn false, (startTurn scope s : Turn (Inquiry κ) _)]) :=
      .now (.cons Inquiry.IsWork.isCancelled.isQuiet (.cons ⟨rfl, by rintro _ ⟨⟩; rfl⟩ .nil))
    have hall := hboth.quiet_append hquiet
    obtain ⟨hchildren, heffects⟩ := (s.conclude_closes a' n 0).keeps
    rw [← hchildren] at hall
    have hlast := finish_leavesLast uend hall heffects
    rwa [← exchanges_append, ← exchanges_append, ← exchanges_append, List.append_assoc,
      List.append_assoc] at hlast

/-- **The decorations compose in their order.** Whatever a step, its context and its components are: it
goes through its decorations as `Decorated` says, and leaves its own effects last, if it leaves them. -/
theorem step_decorated {levels : Nat} (u : (r.step (r.execute levels) c scope s).Unfolds h o) :
    Decorated r (r.execute levels) c scope s h o ∧ LeavesLast s (exchanges h) o :=
  ⟨step_goes u, step_leavesLast u⟩

end Runner

namespace Sample

/-- A step that fails, with a fallback that does not; both have a compensation. -/
def rescued : Step :=
  { Step.call "main" "boom" with
    onError := some { Step.call "spare" "make" with rollback := some "undo" }, rollback := some "undo" }

/-- A runner with the callables of the step. -/
def rescuer : Runner String where
  registry := registry

end Sample

namespace Runner

/-- The fallback saves the step, whose output and compensation come last. -/
theorem step_decorated_rescued :
    ∃ (h : History (Inquiry String) Inquiry.Answer) (o : StepOutcome),
      (Sample.rescuer.step (Sample.rescuer.execute 1) {} (.root "flow" "1" false)
        Sample.rescued).Unfolds h o ∧
      o.result.status = .passed ∧
      o.effects.outputs = [("spare", .str "made"), ("main", .str "made")] ∧
      o.effects.compensations = [⟨"spare", "undo", .str "made"⟩, ⟨"main", "undo", .str "made"⟩] ∧
      Decorated Sample.rescuer (Sample.rescuer.execute 1) {} (.root "flow" "1" false) Sample.rescued
        h o ∧
      LeavesLast Sample.rescued (exchanges h) o := by
  have hu := follow_unfolds Sample.answers 0
    (Sample.rescuer.step (Sample.rescuer.execute 1) {} (.root "flow" "1" false) Sample.rescued)
  exact ⟨_, _, hu, rfl, rfl, rfl, step_decorated hu⟩

end Runner

end Stepflow
