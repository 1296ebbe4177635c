import Stepflow.Proofs.Events
import Stepflow.Proofs.Run.Names
import Stepflow.Proofs.Run.Tries

/-!
# References that are checked are found

The check of references looks at a workflow before it is run, and the run looks names up when it comes to
them: when a step calls its component, and when the step is compensated. If the check finds nothing, in the
workflow and in those that it reaches, no lookup of a run fails (`ran_resolved`), whatever components and
cancellation do.
-/

namespace Stepflow

open Script

variable {κ : Type} {r : Runner κ} {g : Registry κ} {execute : Execute κ} {c : Context}
  {scope scope' : Scope} {s : Step} {w w' : Workflow} {t u : Trace κ} {site : Site}
  {h : History (Inquiry κ) Inquiry.Answer} {o : StepOutcome} {x : Execution}

namespace Runner

/-! ## Errors of steps -/

/-- **A step fails with an error** in a history of it: a try does, or the error is what is left after the
last try, or after the fallback. -/
inductive FailsWith (r : Runner κ) (execute : Execute κ) (c : Context) (scope : Scope) (s : Step) :
    History (Inquiry κ) Inquiry.Answer → StepError → Prop
  /-- One of its tries fails with the error. -/
  | inTry {began : Nat} {as : List Attempt} {a : Attempt} {e : StepError}
      {k l : History (Inquiry κ) Inquiry.Answer} :
      r.Tried s.retryPolicy (r.kindOf execute c scope s.name s.kind) 0 as k → a ∈ as →
      a.outcome = .error e →
      FailsWith r execute c scope s
        (.asked (Entry.of .now began) :: pollTurn false :: startTurn scope s :: (k ++ l)) e
  /-- The error is left in the end. -/
  | inEnd {began n : Nat} {a a' : Attempt} {e : StepError}
      {k l m : History (Inquiry κ) Inquiry.Answer} :
      (r.retried s.retryPolicy (r.kindOf execute c scope s.name s.kind)).Unfolds k (a, n) →
      (recovering (s.onError.map (r.plan execute c scope)) a).Unfolds l a' →
      a.outcome = .error e ∨ a'.outcome = .error e →
      FailsWith r execute c scope s
        (.asked (Entry.of .now began) :: pollTurn false :: startTurn scope s :: (k ++ (l ++ m))) e

/-- **A step that comes to a failure** fails with an error, and tells the wording of it. -/
theorem step_failsWith (u : (r.step execute c scope s).Unfolds h o) (ho : o.result.status = .failed) :
    ∃ e, r.FailsWith execute c scope s h e ∧ o.result.error = some e.message := by
  cases step_course u with
  | skipped _ uend =>
    obtain ⟨now, d, rfl, -⟩ := finish_unfolds uend
    contradiction
  | cancelled _ uend =>
    obtain ⟨now, d, rfl, -⟩ := finish_unfolds uend
    contradiction
  | @tried began n a a' k l m o _ utries ufallback uend =>
    obtain ⟨now, d, rfl, -⟩ := finish_unfolds uend
    cases he : a'.outcome with
    | ok output =>
      rw [Step.conclude, he] at ho
      dsimp only at ho
      split at ho <;> contradiction
    | error e =>
      refine ⟨e, .inEnd utries ufallback (.inr he), ?_⟩
      rw [Step.conclude, he] at ho ⊢
      dsimp only at ho ⊢
      split at ho
      · contradiction
      · rename_i hcancelled
        rw [if_neg hcancelled]

/-- Each try of a step is one of its kind. -/
theorem Tried.known {policy : Option RetryPolicy} {attempt : RunScript κ Attempt} {first : Nat}
    {as : List Attempt} (hk : attempt.Gives (Attempt.Known g)) (ht : Tried r policy attempt first as h) :
    ∀ a ∈ as, a.Known g := by
  induction ht with
  | last u => exact List.forall_mem_singleton.2 ((RunScript.gives_under hk).of_unfolds u)
  | interrupted _ u _ _ => exact List.forall_mem_singleton.2 ((RunScript.gives_under hk).of_unfolds u)
  | again _ u _ _ _ ih => exact List.forall_mem_cons.2 ⟨(RunScript.gives_under hk).of_unfolds u, ih⟩

/-- **A step of known names** never fails because one is not registered. -/
theorem Linked.not_failsWith (hs : r.Linked execute s) (e : RegistryError) :
    ¬ r.FailsWith execute c scope s h (.unregistered e) := by
  have hkind : (r.kindOf execute c scope s.name s.kind).Gives (Attempt.Known r.registry) :=
    hs.kindOf_known
  rintro (⟨htried, ha, he⟩ | ⟨utries, ufallback, he⟩)
  · exact (htried.known hkind _ ha).outcome e he
  · have ha := (retried_known hkind).of_unfolds utries
    have ha' := (recovering_known (fun f hf => ?_) ha).of_unfolds ufallback
    · exact he.elim (ha.outcome e) (ha'.outcome e)
    · obtain ⟨i, hi, rfl⟩ := Option.map_eq_some_iff.1 hf
      exact step_leaves (hs.nested (List.mem_append_right _ (Option.mem_toList.2 hi)))

end Runner

/-! ## Compensations that are started -/

/-- **Every compensation that the trace starts** at its own site is handed right away to the callable that
is registered under its name. -/
def Trace.Delivers (g : Registry κ) (t : Trace κ) : Prop :=
  ∀ before after workflow step action,
    t = before ++ .of (.tell (.rollbackStarted workflow step action)) () :: after →
      ∃ component output call reply rest, g.callables.get? action = some component ∧
        after = .of (.begin .callables action component (.arguments [] [("output", output)])) call ::
          .of (.collect call.ticket) reply :: rest

namespace Trace.Delivers

/-- What starts no compensation may come first. -/
theorem append (ht : t.own.rollbacks = []) (hu : u.Delivers g) : (t ++ u).Delivers g := by
  intro before after workflow step action heq
  have hnone : Entry.of (.tell (.rollbackStarted workflow step action)) () ∉ t := fun hm => by
    have := List.filterMap_eq_nil_iff.1 ht _ (List.mem_filter.2 ⟨hm, rfl⟩)
    contradiction
  obtain ⟨as, rfl, hu'⟩ | ⟨bs, rfl, hbs⟩ := List.append_eq_append_iff.1 heq
  · exact hu as after workflow step action hu'
  · cases bs with
    | nil => exact hu [] after workflow step action hbs.symm
    | cons e bs =>
      obtain ⟨rfl, -⟩ := List.cons.inj hbs
      exact absurd (List.mem_append_right _ List.mem_cons_self) hnone

theorem nil : Delivers g ([] : Trace κ) := fun before after _ _ _ heq => by
  have := congrArg List.length heq
  simp at this

theorem of_none (ht : t.own.rollbacks = []) : t.Delivers g := List.append_nil t ▸ append ht nil

/-- A compensation whose callable is registered is handed over. -/
theorem start {workflow step action : String} {component : κ} {output : Value} {call : Call}
    {reply : Except String Reply} (hg : g.callables.get? action = some component) (hu : u.Delivers g) :
    Delivers g (.of (.tell (.rollbackStarted workflow step action)) () ::
      .of (.begin .callables action component (.arguments [] [("output", output)])) call ::
        .of (.collect call.ticket) reply :: u) := by
  have hrest : Delivers g (.of (.begin .callables action component
      (.arguments [] [("output", output)])) call :: .of (.collect call.ticket) reply :: u) :=
    append (t := [_, _]) rfl hu
  intro before after workflow' step' action' heq
  cases before with
  | nil =>
    obtain ⟨he, rfl⟩ := List.cons.inj heq
    injection he with hq
    injection hq with _ _ hr
    injection hr with hr
    injection hr with _ _ ha
    subst ha
    exact ⟨component, output, call, reply, u, hg, rfl⟩
  | cons e before =>
    obtain ⟨-, heq⟩ := List.cons.inj heq
    exact hrest before after workflow' step' action' heq

end Trace.Delivers

namespace Runner

/-- **Compensations that can be called** are called. -/
theorem Compensates.delivers {workflow : String} {owed : List Compensation}
    (hc : ∀ c ∈ owed, c.Known r.registry) (h : r.Compensates workflow owed t)
    (hu : u.Delivers r.registry) : (t ++ u).Delivers r.registry := by
  induction h with
  | nil => exact hu
  | @cons c rest t v error hinvokes _ ih =>
    obtain ⟨component, hget, hfound⟩ := Registry.resolve_of_has (hc c List.mem_cons_self) nofun
    rw [Invokes, hfound] at hinvokes
    obtain ⟨call, reply, rfl, -⟩ := hinvokes
    have hrest := ih fun c hm => hc c (List.mem_cons_of_mem _ hm)
    exact .start hget (.append (t := [_]) rfl hrest)

/-- So are all that a run starts at its end. -/
theorem conclude_delivers {began : Nat} {p : Place} {ending : Ending} (hp : p.Known r.registry)
    (h : (r.conclude w scope began p ending).Traces t x) : t.Delivers r.registry := by
  obtain ⟨v, now, totalMs, rfl, -, hs⟩ := conclude_traces h
  have hlast : Trace.Delivers r.registry ([.of .now now,
      .of (.tell (completed w scope ending totalMs)) ()] : Trace κ) := .of_none rfl
  cases ending with
  | failed error => exact hs.1.delivers (fun c hc => hp c (List.mem_reverse.1 hc)) hlast
  | cancelled => exact .append hs.1.quiet.calm.own_rollbacks hlast
  | finished => exact .append hs.1.quiet.calm.own_rollbacks hlast

/-- **Every compensation that a run starts** is handed to its callable: it starts none on its way, and at
its end those that it owes. -/
theorem executeFrom_delivers {inputs : Fields} {recorded : List StepResult}
    (hl : ∀ s ∈ w.steps, r.Linked execute s)
    (h : (r.executeFrom execute recorded w inputs scope).Traces t (.ok x)) : t.Delivers r.registry := by
  obtain ⟨h, u, rfl⟩ := h
  obtain @⟨p, q, p', left, began, ending, x, h₁, h₂, h₃, hreplay, hpasses, hstops, hends⟩ :=
    executeFrom_course u
  have hway : Trace.Calm (exchanges (h₁ ++ h₂)) := by
    refine Trace.calm_of_asksOnly (asksOnly_steps (fun _ => nofun) (fun i s _ c => ?_) fun s results => ?_)
      (steps_unfolds.2 ⟨h₁, h₂, left, q, hpasses, hstops, rfl⟩).traces
    · exact RunScript.asksOnly_under (asksOnly_of_forall (fun _ hs => absurd hs (List.cons_ne_nil _ _)) _)
    · exact (asksOnly_saving s results).mono fun q hq _ => hq.1.2
  rw [exchanges_append, ← List.append_assoc h₁, exchanges_append]
  exact .append (t := [_, _]) rfl (.append hway.own_rollbacks
    (conclude_delivers (stops_known hl hreplay hpasses hstops) hends.traces))

/-! ## Whole runs -/

/-- **What a run enters, its workflow reaches.** -/
theorem Enters.reaches (hw : r.registry.Covers w) (he : r.Enters w scope site w' scope') :
    r.registry.Reaches w w' := by
  induction he with
  | here => exact .refl _
  | inside _ _ ih => exact ih hw
  | nested hn _ ih =>
    obtain ⟨hs, hk, hprepare⟩ := hn
    obtain ⟨loc, hknown⟩ := (hw.known hs).kind
    rw [hk] at hknown
    obtain ⟨v, hv, -⟩ := Registry.resolveWorkflow_of_has (hknown _ List.mem_cons_self)
    obtain hget | ⟨hnone, -⟩ := prepare_ok hprepare
    · exact .step hs hk hget (ih (hw.next hs hk hget))
    · exact absurd (hnone.symm.trans hv) nofun

/-- What is reached from what a registry covers is covered. -/
theorem covers_of_reaches (hw : r.registry.Covers w) (h : r.registry.Reaches w w') :
    r.registry.Covers w' := by
  induction h with
  | refl => exact hw
  | step hs hk hu _ ih => exact ih (hw.next hs hk hu)

/-- Only a run starts compensations. -/
theorem PartTold.rollback {role : Role} {workflow step action : String} (h : r.PartTold w scope role t)
    (hm : ⟨[], .rollbackStarted workflow step action⟩ ∈ t.events) : role = .run := by
  cases h with
  | run => rfl
  | @step _ c s _ o _ _ h =>
    generalize t.events = told at h hm
    cases h with
    | skipped => simp [stepEnd] at hm
    | cancelled => simp [stepEnd] at hm
    | started _ hinner =>
      simp only [List.mem_cons, List.mem_append, List.not_mem_nil, or_false, stepEnd] at hm
      obtain hm | hm | hm := hm
      · injection hm
        contradiction
      · exact absurd rfl (hinner _ hm)
      · injection hm
        contradiction
  | attempt h => exact absurd rfl (h _ hm)

/-- **Every part of a run** hands the compensations that it starts to their callables. -/
theorem Part.delivers {role : Role} (hw : r.registry.Covers w) (h : r.Part w scope role t) :
    t.Delivers r.registry := by
  by_cases hrole : role = .run
  · subst hrole
    obtain @⟨levels, recorded, given, t, y, ht⟩ := h
    cases y with
    | error e =>
      rw [executeFrom_refused ht]
      exact .nil
    | ok x =>
      exact executeFrom_delivers
        (fun s hs => linked_of_covers levels hw (List.mem_flatMap.2 ⟨s, hs, s.mem_subtree_self⟩)) ht
  · rintro before after workflow step action rfl
    have htold : (⟨[], .rollbackStarted workflow step action⟩ : Told) ∈
        Trace.events (before ++ .of (.tell (.rollbackStarted workflow step action)) () :: after) := by
      rw [Trace.events_append]
      exact List.mem_append_right _ List.mem_cons_self
    exact absurd ((h.told (by simp)).rollback htold) hrole

/-- **The names in a run are resolved.** -/
structure Resolved (r : Runner κ) (w : Workflow) (t : Trace κ) : Prop where
  /-- Wherever in the run there is a step, it is one of a workflow that the run reaches. -/
  steps : ∀ site, roleAt site = .step → t.inside site ≠ [] → ∃ w' scope',
    r.registry.Reaches w w' ∧ r.Part w' scope' .step (t.inside site)
  /-- Such a step, whatever it does, fails only with errors that it tells, and with none of the registry. -/
  errors : ∀ w', r.registry.Reaches w w' → ∀ s ∈ w'.steps.flatMap Step.subtree,
    ∀ levels c scope h o, (r.step (r.execute levels) c scope s).Unfolds h o →
      (o.result.status = .failed →
        ∃ e, r.FailsWith (r.execute levels) c scope s h e ∧ o.result.error = some e.message) ∧
      ∀ e, ¬ r.FailsWith (r.execute levels) c scope s h (.unregistered e)
  /-- Wherever in the run a compensation is started, its callable is called. -/
  compensations : ∀ site, (t.inside site).Delivers r.registry

/-- **References that are checked are found.** If the check of references finds nothing wrong with a
workflow, nor with any workflow that it reaches through steps that run workflows, then in every run of it no
step at any depth fails because a name is not registered, in none of its tries and not in the end; and every
compensation that is started, by the run or by one inside it, is handed right away to the callable that is
registered under its name. -/
theorem ran_resolved {recorded : List StepResult} (hw : r.registry.Covers w)
    (hr : r.Ran w recorded h x) : r.Resolved w (exchanges h) := by
  obtain ⟨levels, given, scope, pre, k, rfl, hpre, u⟩ := hr.executes
  have hpart : r.Part w scope .run (exchanges k) := .run u.traces
  have hinside : ∀ l site, Trace.inside (exchanges (pre ++ k)) (l :: site) =
      Trace.inside (exchanges k) (l :: site) := by
    intro l site
    cases hpre <;> rfl
  refine ⟨fun site hrole hne => ?_, fun w' hreaches s hs levels c scope h o u => ?_, fun site => ?_⟩
  · cases site with
    | nil => contradiction
    | cons l site =>
      rw [hinside] at hne ⊢
      obtain ⟨w', scope', henters, hpart'⟩ := hpart.inside_run hne
      exact ⟨w', scope', henters.reaches hw, hrole ▸ hpart'⟩
  · exact ⟨step_failsWith u,
      (linked_of_covers levels (covers_of_reaches hw hreaches) hs).not_failsWith⟩
  · cases site with
    | nil =>
      have hquiet : Trace.rollbacks (Trace.own (exchanges pre)) = [] := by
        cases hpre <;> rfl
      rw [exchanges_append]
      exact .append hquiet (hpart.delivers hw)
    | cons l site =>
      rw [hinside]
      by_cases hne : Trace.inside (exchanges k) (l :: site) = []
      · rw [hne]
        exact .nil
      · obtain ⟨w', scope', henters, hpart'⟩ := hpart.inside_run hne
        exact hpart'.delivers (covers_of_reaches hw (henters.reaches hw))

end Runner

namespace Sample

theorem registry_covers_failing : registry.Covers failing :=
  Registry.covers_of_registered (by decide +kernel) (by decide +kernel)

end Sample

namespace Runner

/-- The names in a run that runs another inside it, and compensates a step of each. -/
theorem ran_resolved_failing : ∃ (h : History (Inquiry String) Inquiry.Answer) (x : Execution),
    Ran { registry := Sample.registry } Sample.failing [] h x ∧
      Resolved { registry := Sample.registry } Sample.failing (exchanges h) ∧
      (Trace.rollbacks (exchanges h)) = [("inner", "undo"), ("outer", "undo")] := by
  have hu := follow_unfolds Sample.answers 0
    (run { registry := Sample.registry } Sample.failing "1" [])
  have hr : Ran { registry := Sample.registry } Sample.failing [] _ _ := .run (x := _) hu
  exact ⟨_, _, hr, ran_resolved Sample.registry_covers_failing hr, rfl⟩

end Runner

end Stepflow
