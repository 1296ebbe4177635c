import Stepflow.Proofs.Compensation
import Stepflow.Proofs.Run.Snapshot
import Stepflow.Proofs.Run.Telling

/-!
# What a replay finds

A checkpoint holds the results of the steps that a run has taken, and a replay rebuilds the place of
the run from them. The run itself knows more: it is given the outputs of its own completions, and the
compensations of all that no failed run has settled. The results keep the completions of the last try
of every step that is done, in runs inside steps as well. So the two places differ where these
completions do: `run_replayed_outputs` says so of the outputs, and `run_replayed_owed` of the
compensations.
-/

namespace Stepflow

open Script

variable {κ : Type} {r : Runner κ} {w : Workflow} {id : String} {inputs given : Fields}
  {ss : List Step} {p q : Place} {new : List StepResult} {t : Trace κ} {cs : List Completion}
  {e : Effects} {s' : RunScript κ (Except Refusal Execution)} {c : Checkpoint}

/-! ## Replay reads the records off -/

/-- **What a replay adds** to a place is what the results record for the steps that they are of. -/
theorem Place.replay_eq (index : Nat) (h : new.map StepResult.name <+: ss.map Step.name) (p : Place) :
    Place.replay index ss new p = .ok
      { context := p.context.setOutputs (StepResult.recordedAlong ss new).outputs
        results := p.results ++ new
        owed := p.owed ++ (StepResult.recordedAlong ss new).compensations } := by
  induction new generalizing index ss p with
  | nil =>
    rw [StepResult.recordedAlong_nil, Place.replay, List.append_nil]
    exact congrArg Except.ok (congrArg (Place.mk p.context p.results) (List.append_nil _).symm)
  | cons result rest ih =>
    cases ss with
    | nil => exact absurd (List.prefix_nil.1 h) (List.cons_ne_nil _ _)
    | cons s ss =>
      obtain ⟨hname, hrest⟩ := List.cons_prefix_cons.1 h
      rw [Place.replay, if_pos hname.symm, ih (index + 1) hrest, StepResult.recordedAlong]
      simp only [Place.afterRecorded, Effects.outputs_append, Effects.compensations_append,
        Context.setOutputs_append, List.append_assoc, List.singleton_append]
      rfl

/-- The output of the last of some completions of steps of a name. -/
def outputOf (cs : List Completion) (name : String) : Option Value :=
  (cs.reverse.find? fun c => c.step.name = name).map Completion.output

theorem outputOf_eq_latest (cs : List Completion) (name : String) :
    outputOf cs name = latest (cs.map Completion.entry) name := by
  rw [outputOf, latest, ← List.map_reverse, List.find?_map, Option.map_map]
  rfl

/-- **What the context has under a name** is the output of the last completion of that name. -/
theorem Context.get?_setOutputs (c : Context) (cs : List Completion) (name : String) :
    (c.setOutputs (cs.map Completion.entry)).outputs.get? name =
      (outputOf cs name).or (c.outputs.get? name) := by
  rw [get?_setOutputs_latest, outputOf_eq_latest]

theorem Completion.owed_eq_nil_iff {d : Completion} : d.owed = [] ↔ d.step.rollback = none := by
  cases h : d.step.rollback <;> simp [owed, h]

/-! ## What the run has settled -/

namespace Trace

/-- Only runs inside steps tell that they have ended. -/
def EndsInside (t : Trace κ) : Prop := ∀ e ∈ t, e.failure?.isSome → Layer.run ∈ e.request.site

theorem EndsInside.failure? (h : t.EndsInside) : t.failure? = none := by
  refine List.findSome?_eq_none_iff.2 fun e he => ?_
  obtain ⟨hm, hsite⟩ := List.mem_filter.1 he
  rw [List.isEmpty_iff] at hsite
  rw [← Option.not_isSome_iff_eq_none]
  intro hsome
  have hrun := h e hm hsome
  rw [hsite] at hrun
  contradiction

theorem EndsInside.within (h : t.EndsInside) {l : Layer} (hl : l ≠ .run) :
    (t.within l).EndsInside := by
  intro e he hsome
  obtain ⟨⟨⟨site, step, request⟩, answer⟩, hm, hout⟩ := List.mem_filterMap.1 he
  cases site with
  | nil => contradiction
  | cons m site =>
    simp only [Entry.outOf?] at hout
    split at hout
    · rename_i hml
      injection hout with hout
      subst hout hml
      obtain hrun | hrun := List.mem_cons.1 (h _ hm hsome)
      · exact absurd hrun.symm hl
      · exact hrun
    · contradiction

/-- **What is in no run inside a step** no failed run has settled. -/
theorem EndsInside.settled_own (h : t.EndsInside) {site : Site} (hs : site.isOwn = true) :
    t.settled site = false := by
  induction site generalizing t with
  | nil =>
    rw [settled, h.failure?]
    rfl
  | cons l site ih =>
    have hl : l ≠ .run := by
      rintro rfl
      rw [Site.isOwn_run] at hs
      contradiction
    rw [Site.isOwn_cons hl] at hs
    rw [settled, h.failure?, Option.isSome_none, Bool.false_or]
    exact ih (h.within hl) hs

end Trace

/-- The request tells of the end of a run only in a run inside a step. -/
def Inquiry.EndsInside (q : Inquiry κ) : Prop :=
  ∀ workflow id success cancelled totalMs,
    q.request = .tell (.workflowCompleted workflow id success cancelled totalMs) → .run ∈ q.site

theorem Inquiry.IsWork.endsInside {q : Inquiry κ} (hq : q.IsWork) : q.EndsInside := by
  intro _ _ _ _ _ hr
  cases hq <;> contradiction

theorem Inquiry.IsIdle.endsInside {q : Inquiry κ} (hq : q.IsIdle) : q.EndsInside := by
  intro _ _ _ _ _ hr
  have := hq.1.2 _ hr
  contradiction

namespace Runner

theorem step_endsInside {execute : Execute κ} (he : ∀ w inputs scope, (execute w inputs scope).Prompt)
    (c : Context) (scope : Scope) (s : Step) :
    (r.step execute c scope s).AsksOnly Inquiry.EndsInside := by
  refine (step_works (fun _ => Inquiry.IsWork.endsInside) (fun s e he _ _ _ _ _ hr => ?_)
    (fun q l _ hq _ _ _ _ _ hr => List.mem_cons_of_mem _ (hq _ _ _ _ _ hr))
    (fun _ w inputs scope _ => ⟨RunScript.prompt_under (he w inputs scope), ?_⟩) c scope).asks
  · injection hr with hr
    subst hr
    contradiction
  · exact RunScript.asksOnly_under (asksOnly_of_forall
      (fun q _ _ _ _ _ _ => List.mem_cons_self) _)

/-- A run that has not ended yet has told only of runs inside its steps that they have. -/
theorem run_endsInside {h : History (Inquiry κ) Inquiry.Answer} (l : (r.run w id inputs).Leads h s')
    (hc : Trace.Calm (exchanges h)) : Trace.EndsInside (exchanges h) := by
  have hasks : (r.run w id inputs).AsksOnly fun q => q.site = [] ∨ q.EndsInside := by
    unfold run
    split
    · trivial
    · refine asksOnly_executeFrom (fun _ hq => .inr hq.endsInside) (fun _ _ => .inl rfl)
        (fun _ _ => .inl rfl) (fun c s _ k => ?_) (fun s results => ?_)
      · have hstep : ∀ scope, (r.step (r.execute r.levels) c scope s).AsksOnly Inquiry.EndsInside :=
          fun scope => step_endsInside (fun _ _ _ => execute_prompt _) c scope s
        refine RunScript.asksOnly_under ((hstep _).mono fun q hq => .inr fun _ _ _ _ _ hr => ?_)
        exact List.mem_cons_of_mem _ (hq _ _ _ _ _ hr)
      · exact (asksOnly_saving s results).mono fun _ hq => .inr hq.endsInside
  intro e he hsome
  -- its own end the run has not told yet
  have hbare : e.request.site ≠ [] := fun hsite => by
    have := hc e (List.mem_filter.2 ⟨he, by rw [hsite]; rfl⟩)
    rw [Entry.failure?_of_calm this] at hsome
    contradiction
  unfold Entry.failure? at hsome
  split at hsome
  · rename_i hr
    exact (hasks.of_exchanges l e he).resolve_left hbare _ _ _ _ _ hr
  · contradiction

/-! ## The two places -/

namespace Saves

/-- A replay of a checkpoint goes through. -/
theorem replay_eq (h : r.Saves w id given t s' c p cs e) :
    Place.replay 0 w.steps c.steps (r.start given) = .ok
      { context := (r.start given).context.setOutputs (StepResult.recordedAlong w.steps c.steps).outputs
        results := c.steps
        owed := (StepResult.recordedAlong w.steps c.steps).compensations } :=
  Place.replay_eq 0 h.along.names _

/-- The run has the outputs of its own completions. -/
theorem outputs_eq (h : r.Saves w id given t s' c p cs e) (name : String) :
    p.context.outputs.get? name = outputOf (cs.filter fun d => d.site.isOwn) name := by
  rw [h.along.context, h.along.kept.memory.outputs_eq, Context.get?_setOutputs]
  exact Option.or_none

/-- The replay has the outputs of those that are recorded. -/
theorem replayed_outputs_eq (h : r.Saves w id given t s' c p cs e)
    (hq : Place.replay 0 w.steps c.steps (r.start given) = .ok q) (name : String) :
    q.context.outputs.get? name = outputOf (cs.filter fun d => t.recorded d.site) name := by
  rw [h.replay_eq] at hq
  injection hq with hq
  rw [← hq, h.along.kept.memory.recorded_outputs, Context.get?_setOutputs]
  exact Option.or_none

/-- The run owes the compensations of what is not settled. -/
theorem owed_eq (h : r.Saves w id given t s' c p cs e) :
    p.owed = owedFor (cs.filter fun d => !t.settled d.site) :=
  h.along.owed.trans h.along.kept.ledger.owed_eq

/-- The replay owes those of its own completions that are recorded. -/
theorem replayed_owed_eq (h : r.Saves w id given t s' c p cs e)
    (hq : Place.replay 0 w.steps c.steps (r.start given) = .ok q)
    (hd : ∀ s ∈ w.steps, s.Distinct r) :
    q.owed = owedFor (cs.filter fun d => d.site.isOwn && t.recorded d.site) := by
  rw [h.replay_eq] at hq
  injection hq with hq
  rw [← hq]
  exact h.along.kept.memory.recorded_compensations hd

end Saves

/-- Leaving completions out leaves the same owed only if nothing is owed for them. -/
theorem owedFor_filter_eq_iff {b : Completion → Bool} :
    owedFor (cs.filter b) = owedFor cs ↔ ∀ d ∈ cs, b d ∨ d.owed = [] := by
  induction cs with
  | nil => simp
  | cons d cs ih =>
    rw [List.forall_mem_cons, ← ih]
    by_cases hb : b d
    · rw [List.filter_cons_of_pos hb, owedFor, owedFor, List.flatMap_cons, List.flatMap_cons]
      rw [List.append_right_inj]
      exact ⟨fun h => ⟨.inl hb, h⟩, And.right⟩
    · rw [List.filter_cons_of_neg hb]
      show owedFor (cs.filter b) = d.owed ++ owedFor cs ↔ _
      constructor
      · intro h
        -- a list is not longer than one it leaves something out of
        have hle : (owedFor (cs.filter b)).length ≤ (owedFor cs).length :=
          (List.filter_sublist.flatMap Completion.owed).length_le
        have hnil : d.owed = [] := by
          rw [h, List.length_append] at hle
          exact List.eq_nil_of_length_eq_zero (by omega)
        rw [hnil] at h
        exact ⟨.inr hnil, h⟩
      · rintro ⟨h, heq⟩
        rw [h.resolve_left hb, heq]
        rfl

end Runner

/-! ## Outputs -/

namespace Runner

/-- **What a replay rebuilds of the outputs.** At every checkpoint that a run asks for, the run has
under each name the output of the last completion of that name among its own; a replay of the
checkpoint finds the output of the last one among those that are recorded, in runs inside steps as
well. So the replay rebuilds the context exactly if these are the same. -/
theorem run_replayed_outputs {h : History (Inquiry κ) Inquiry.Answer}
    (l : (r.run w id inputs).Leads h s') (hc : s'.AsksToSave c) :
    ∃ given p q cs e, w.resolveInputs inputs = .ok given ∧
      r.Saves w id given (exchanges h) s' c p cs e ∧
      Place.replay 0 w.steps c.steps (r.start given) = .ok q ∧
      Trace.Lists (exchanges h) cs ∧
      (∀ name, p.context.outputs.get? name = outputOf (cs.filter fun d => d.site.isOwn) name) ∧
      (∀ name, q.context.outputs.get? name =
        outputOf (cs.filter fun d => Trace.recorded (exchanges h) d.site) name) ∧
      ((∀ name, q.context.outputs.get? name = p.context.outputs.get? name) ↔
        ∀ name, outputOf (cs.filter fun d => Trace.recorded (exchanges h) d.site) name =
          outputOf (cs.filter fun d => d.site.isOwn) name) := by
  obtain ⟨given, p, cs, e, hgiven, hs⟩ := run_saves l hc
  refine ⟨given, p, _, cs, e, hgiven, hs, hs.replay_eq, hs.along.kept.ledger.lists, hs.outputs_eq,
    hs.replayed_outputs_eq hs.replay_eq, forall_congr' fun name => ?_⟩
  rw [hs.outputs_eq, hs.replayed_outputs_eq hs.replay_eq]

end Runner

namespace Sample

/-- The request saves a checkpoint. -/
def savesNow (q : Inquiry String) : Bool :=
  match q.request with
  | .save .. => true
  | _ => false

/-- A workflow whose step has the name of one of `shadowing`. -/
def shadow : Workflow := { Workflow.empty "child" with steps := [Step.call "a" "give"] }

/-- A workflow that runs the other between a step and one that refers to it. -/
def shadowing : Workflow :=
  { Workflow.empty "wf" with
    steps := [Step.call "a" "give", { Step.subworkflow "s" "child" with checkpoint := true },
      (Step.call "b" "use").withKwarg "x" (.str "$\x7b\x7b steps.a.output \x7d\x7d")] }

/-- What runs them. -/
def shadowingRunner : Runner String where
  registry := { callables := [("give", "give"), ("use", "use")], workflows := [("child", shadow)] }
  hasStore := true

/-- Answers by which the first call gives `outer`, and the next one `inner`. -/
def outerFirst (n : Nat) (q : Inquiry String) : q.Answer :=
  q.request.steadily (fun _ => n) fun ticket =>
    .ok { output := .str (if ticket < 10 then "outer" else "inner") }

/-- The run up to its checkpoint. -/
def shadowed : History (Inquiry String) Inquiry.Answer × RunScript String (Except Refusal Execution) :=
  followTo outerFirst savesNow 0 (shadowingRunner.run shadowing "r" [])

theorem shadowed_leads : (shadowingRunner.run shadowing "r" []).Leads shadowed.1 shadowed.2 :=
  followTo_leads _ _ _ _

theorem shadowed_saves : ∃ c, shadowed.2.AsksToSave c := ⟨_, _, _, _, rfl, rfl⟩

theorem shadowed_lists :
    Trace.Lists (exchanges shadowed.1) (Trace.completions (exchanges shadowed.1)) :=
  ⟨.refl _, by decide +kernel⟩

end Sample

namespace Runner

open Sample

/-- Live, the step that refers to `a` is given the output of the step before; after a replay, that of
the step of this name in the other workflow. -/
theorem run_replayed_outputs_shadowed : ∃ c p q cs e, shadowed.2.AsksToSave c ∧
    shadowingRunner.Saves shadowing "r" [] (exchanges shadowed.1) shadowed.2 c p cs e ∧
    Place.replay 0 shadowing.steps c.steps (shadowingRunner.start []) = .ok q ∧
    p.context.outputs.get? "a" = some (.str "outer") ∧
    q.context.outputs.get? "a" = some (.str "inner") := by
  obtain ⟨c, hc⟩ := shadowed_saves
  obtain ⟨given, p, q, cs, e, hgiven, hs, hq, hl, hlive, hreplayed, -⟩ :=
    run_replayed_outputs shadowed_leads hc
  obtain rfl : [] = given := Except.ok.inj hgiven
  obtain rfl := hl.eq shadowed_lists
  exact ⟨c, p, q, _, e, hc, hs, hq, hlive "a", hreplayed "a"⟩

/-- **Not every replay rebuilds the context** that the run had. -/
theorem not_replay_rebuilds_outputs : ¬ ∀ (r : Runner String) (w : Workflow) (id : String)
    (inputs given : Fields) (h : History (Inquiry String) Inquiry.Answer)
    (s' : RunScript String (Except Refusal Execution)) (c : Checkpoint) (p q : Place)
    (cs : List Completion) (e : Effects), (r.run w id inputs).Leads h s' → s'.AsksToSave c →
      r.Saves w id given (exchanges h) s' c p cs e →
      Place.replay 0 w.steps c.steps (r.start given) = .ok q →
      ∀ name, q.context.outputs.get? name = p.context.outputs.get? name := by
  intro hall
  obtain ⟨c, hc⟩ := shadowed_saves
  obtain ⟨given, p, cs, e, -, hs⟩ := run_saves shadowed_leads hc
  have heq := hall _ _ _ _ _ _ _ c p _ cs e shadowed_leads hc hs hs.replay_eq "a"
  rw [hs.replayed_outputs_eq hs.replay_eq, hs.outputs_eq] at heq
  obtain rfl := hs.along.kept.ledger.lists.eq shadowed_lists
  have hne : some (Value.str "inner") = some (Value.str "outer") := heq
  simp at hne

end Runner

/-! ## Compensations -/

namespace Runner

/-- **What a replay rebuilds of the compensations.** At every checkpoint that a run asks for, the run
owes the compensations of all completions that no failed run has settled, those in runs inside steps
as well. A replay of the checkpoint finds those that are recorded and in no run inside a step, where
the results can be told apart by their names. So it rebuilds what is owed exactly if all that is not
settled and has a compensation is recorded and the run's own. -/
theorem run_replayed_owed {h : History (Inquiry κ) Inquiry.Answer}
    (l : (r.run w id inputs).Leads h s') (hc : s'.AsksToSave c) :
    ∃ given p q cs e, w.resolveInputs inputs = .ok given ∧
      r.Saves w id given (exchanges h) s' c p cs e ∧
      Place.replay 0 w.steps c.steps (r.start given) = .ok q ∧
      Trace.Lists (exchanges h) cs ∧
      p.owed = owedFor (cs.filter fun d => !Trace.settled (exchanges h) d.site) ∧
      ((∀ s ∈ w.steps, s.Distinct r) →
        q.owed = owedFor (cs.filter fun d => d.site.isOwn && Trace.recorded (exchanges h) d.site) ∧
        (q.owed = p.owed ↔ ∀ d ∈ cs, d.step.rollback.isSome →
          Trace.settled (exchanges h) d.site = false →
            d.site.isOwn ∧ Trace.recorded (exchanges h) d.site)) := by
  obtain ⟨given, p, cs, e, hgiven, hs⟩ := run_saves l hc
  refine ⟨given, p, _, cs, e, hgiven, hs, hs.replay_eq, hs.along.kept.ledger.lists, hs.owed_eq,
    fun hd => ?_⟩
  have hq := hs.replayed_owed_eq hs.replay_eq hd
  refine ⟨hq, ?_⟩
  rw [hq, hs.owed_eq]
  have hown : ∀ d : Completion, d.site.isOwn → Trace.settled (exchanges h) d.site = false :=
    fun d => (run_endsInside l hs.along.calm).settled_own
  -- a completion of its own is settled by no failed run, so those found again are among those owed
  have hfilter : (cs.filter fun d => d.site.isOwn && Trace.recorded (exchanges h) d.site) =
      (cs.filter fun d => !Trace.settled (exchanges h) d.site).filter
        fun d => d.site.isOwn && Trace.recorded (exchanges h) d.site := by
    rw [List.filter_filter]
    refine List.filter_congr fun d _ => ?_
    cases hsite : d.site.isOwn
    · rfl
    · simp [hown d hsite]
  rw [hfilter, owedFor_filter_eq_iff]
  simp only [List.mem_filter, Completion.owed_eq_nil_iff, Bool.and_eq_true, Bool.not_eq_true',
    Option.isSome_iff_ne_none, and_imp, ne_eq]
  exact forall_congr' fun d => forall_congr' fun _ =>
    ⟨fun h hrollback hsettled => (h hsettled).resolve_right hrollback,
      fun h hsettled => (Decidable.em _).symm.imp_left fun hrollback => h hrollback hsettled⟩

end Runner

namespace Sample

/-- A workflow that runs `child`, saves a checkpoint, and then fails. -/
def owing : Workflow :=
  { Workflow.empty "wf" with
    steps := [{ Step.subworkflow "nested" "child" with checkpoint := true }, Step.call "last" "boom"] }

/-- What runs it. -/
def owingRunner : Runner String where
  registry := registry
  hasStore := true

/-- The run up to its checkpoint. -/
def owed : History (Inquiry String) Inquiry.Answer × RunScript String (Except Refusal Execution) :=
  followTo answers savesNow 0 (owingRunner.run owing "r" [])

theorem owed_leads : (owingRunner.run owing "r" []).Leads owed.1 owed.2 := followTo_leads _ _ _ _

theorem owed_saves : ∃ c, owed.2.AsksToSave c := ⟨_, _, _, _, rfl, rfl⟩

theorem owed_lists : Trace.Lists (exchanges owed.1) (Trace.completions (exchanges owed.1)) :=
  ⟨.refl _, by decide +kernel⟩

theorem owing_distinct : ∀ s ∈ owing.steps, s.Distinct owingRunner := by
  have hbare : ∀ s : Step, s.nested = [] → s.Distinct owingRunner := fun s hs =>
    .intro (by simp [hs]) (fun _ _ _ _ _ fallback hf => by
      have hm : fallback ∈ s.nested := List.mem_append_right _ (Option.mem_toList.2 hf)
      rw [hs] at hm
      contradiction) (by simp [hs])
  intro s hs
  obtain rfl | hs := List.mem_cons.1 hs
  · exact hbare _ rfl
  · obtain rfl := List.mem_singleton.1 hs
    exact hbare _ rfl

end Sample

namespace Runner

open Sample

/-- Live, the run owes the compensation of the step in the other workflow; after a replay, nothing. -/
theorem run_replayed_owed_owing : ∃ c p q cs e, owed.2.AsksToSave c ∧
    owingRunner.Saves owing "r" [] (exchanges owed.1) owed.2 c p cs e ∧
    Place.replay 0 owing.steps c.steps (owingRunner.start []) = .ok q ∧
    p.owed = [⟨"inner", "undo", .str "made"⟩] ∧ q.owed = [] := by
  obtain ⟨c, hc⟩ := owed_saves
  obtain ⟨given, p, q, cs, e, hgiven, hs, hq, hl, hlive, hreplayed⟩ :=
    run_replayed_owed owed_leads hc
  obtain rfl : [] = given := Except.ok.inj hgiven
  obtain rfl := hl.eq owed_lists
  exact ⟨c, p, q, _, e, hc, hs, hq, hlive, (hreplayed owing_distinct).1⟩

/-- **Not every replay rebuilds what is owed** for runs inside steps. -/
theorem not_replay_rebuilds_owed : ¬ ∀ (r : Runner String) (w : Workflow) (id : String)
    (inputs given : Fields) (h : History (Inquiry String) Inquiry.Answer)
    (s' : RunScript String (Except Refusal Execution)) (c : Checkpoint) (p q : Place)
    (cs : List Completion) (e : Effects), (r.run w id inputs).Leads h s' → s'.AsksToSave c →
      r.Saves w id given (exchanges h) s' c p cs e →
      Place.replay 0 w.steps c.steps (r.start given) = .ok q →
      (owedFor (cs.filter fun d => !d.site.isOwn && !Trace.settled (exchanges h) d.site)).Sublist
        q.owed := by
  intro hall
  obtain ⟨c, hc⟩ := owed_saves
  obtain ⟨given, p, cs, e, -, hs⟩ := run_saves owed_leads hc
  have hsub := hall _ _ _ _ _ _ _ c p _ cs e owed_leads hc hs hs.replay_eq
  obtain rfl := hs.along.kept.ledger.lists.eq owed_lists
  rw [hs.replayed_owed_eq hs.replay_eq owing_distinct] at hsub
  have hnil : List.Sublist [Compensation.mk "inner" "undo" (.str "made")] [] := hsub
  simp at hnil

end Runner

end Stepflow
