import Mathlib.Data.List.Basic
import Stepflow.Proofs.Replay

/-!
# What a replay finds of groups

A branch, a group or a validation is done or not as a whole, and is tried again as a whole. What was
done inside it counts nevertheless: a run owes the compensations of members that were done in a try
that failed, and of those in a step that was skipped in the end. A result, however, has the steps of the
last try alone, and a replay passes over all that is in a step that is not done. In a workflow that is
self-contained there is no other difference (`run_replayed_groups`).
-/

namespace Stepflow

open Script

variable {κ : Type} {r : Runner κ} {w : Workflow} {id : String} {inputs : Fields} {p q : Place}
  {cs : List Completion} {s' : RunScript κ (Except Refusal Execution)} {c : Checkpoint}
  {h : History (Inquiry κ) Inquiry.Answer}

/-- **A place restores another as to the steps of a name**: it has the same output of them, and owes the
same compensations in the same order. -/
structure Place.Restores (q p : Place) (name : String) : Prop where
  /-- The output. -/
  output : q.context.outputs.get? name = p.context.outputs.get? name
  /-- The compensations. -/
  owed : (q.owed.filter fun o => o.step = name) = p.owed.filter fun o => o.step = name

/-- What is owed for steps of a name is owed for their completions. -/
theorem owedFor_filter_step (cs : List Completion) (name : String) :
    (owedFor cs).filter (fun o => o.step = name) = owedFor (cs.filter fun d => d.step.name = name) := by
  have hone : ∀ d : Completion, d.owed.filter (fun o => o.step = name) =
      if d.step.name = name then d.owed else [] := fun d => by
    unfold Completion.owed
    cases d.step.rollback with
    | none => simp
    | some action => by_cases hname : d.step.name = name <;> simp [hname]
  induction cs with
  | nil => rfl
  | cons d cs ih =>
    rw [owedFor, List.flatMap_cons, List.filter_append, hone, List.filter_cons]
    by_cases hname : d.step.name = name
    · rw [if_pos hname, if_pos (decide_eq_true hname), owedFor, List.flatMap_cons]
      exact congrArg (d.owed ++ ·) ih
    · rw [if_neg hname, if_neg (by simpa using hname), List.nil_append]
      exact ih

namespace Runner

/-! ## No run inside a step -/

theorem asksOnly_own {execute : Execute κ} {s : Step} (hs : ∀ i ∈ s.subtree, ¬ i.kind.RunsWorkflow)
    (c : Context) (scope : Scope) :
    (r.step execute c scope s).AsksOnly fun q => q.site.isOwn = true := by
  refine (step_works (fun q hq => ?_) (fun _ _ _ => rfl) (fun q l hl hq => ?_)
    (fun ⟨i, hi, hk⟩ => absurd hk (hs i hi)) c scope).asks
  · cases hq <;> rfl
  · exact (Site.isOwn_cons hl _).trans hq

/-- **A self-contained workflow** is run without a run inside a step. -/
theorem run_asksOnly_own (hw : w.SelfContained) :
    (r.run w id inputs).AsksOnly fun q => q.site.isOwn = true := by
  unfold run
  split
  · trivial
  · refine asksOnly_executeFrom (fun q hq => ?_) (fun _ _ => rfl) (fun _ _ => rfl) (fun c s hs k => ?_)
      fun s results => asksOnly_saving_of rfl rfl (fun _ _ => rfl) fun _ => rfl
    · cases hq <;> rfl
    · refine RunScript.asksOnly_under ((asksOnly_own (fun i hi => ?_) c _).mono fun q hq => ?_)
      · exact hw.kinds i (List.mem_flatMap.2 ⟨s, hs, hi⟩)
      · exact (Site.isOwn_cons (l := .declared k) nofun _).trans hq

theorem Saves.isOwn (hw : w.SelfContained) (l : (r.run w id inputs).Leads h s') {given : Fields}
    {e : Effects} (hs : r.Saves w id given (exchanges h) s' c p cs e) : ∀ d ∈ cs, d.site.isOwn = true := by
  intro d hd
  have hmem := hs.along.kept.ledger.lists.perm.mem_iff.1 hd
  obtain ⟨entry, hentry, hcompletion⟩ := List.mem_filterMap.1 hmem
  rw [Entry.site_of_completion? hcompletion]
  exact (run_asksOnly_own hw).of_exchanges l entry hentry

/-! ## The two places -/

/-- **What a replay rebuilds of groups.** At every checkpoint that a run of a self-contained workflow
asks for, the run has the output of the last completion of every name and owes the compensations of all
completions: in every try, and whatever came of the step around them. A replay of the checkpoint finds
only the completions that are recorded: the steps around them are done, in their last tries. It owes no
more than the run, and restores what the run had of the steps of a name exactly if all their completions
that have a compensation are recorded, and the last one that is recorded has the output of the last. -/
theorem run_replayed_groups (hw : w.SelfContained) (l : (r.run w id inputs).Leads h s')
    (hc : s'.AsksToSave c) : ∃ given p q cs e, w.resolveInputs inputs = .ok given ∧
      r.Saves w id given (exchanges h) s' c p cs e ∧
      Place.replay 0 w.steps c.steps (r.start given) = .ok q ∧ Trace.Lists (exchanges h) cs ∧
      (∀ name, p.context.outputs.get? name = outputOf cs name) ∧ p.owed = owedFor cs ∧
      (∀ name, q.context.outputs.get? name =
        outputOf (cs.filter fun d => Trace.recorded (exchanges h) d.site) name) ∧
      q.owed = owedFor (cs.filter fun d => Trace.recorded (exchanges h) d.site) ∧
      q.owed.Sublist p.owed ∧
      ∀ name, q.Restores p name ↔
        outputOf (cs.filter fun d => Trace.recorded (exchanges h) d.site) name = outputOf cs name ∧
          ∀ d ∈ cs, d.step.name = name → d.step.rollback.isSome →
            Trace.recorded (exchanges h) d.site := by
  obtain ⟨given, p, cs, e, hgiven, hs⟩ := run_saves l hc
  have hown := hs.isOwn hw l
  have hlive : ∀ name, p.context.outputs.get? name = outputOf cs name := fun name => by
    rw [hs.outputs_eq, List.filter_eq_self.2 hown]
  have howed : p.owed = owedFor cs := by
    rw [hs.owed_eq, List.filter_eq_self.2 fun d hd => ?_]
    rw [(run_endsInside l hs.along.calm).settled_own (hown d hd)]
    rfl
  obtain ⟨q, hq⟩ : ∃ q, Place.replay 0 w.steps c.steps (r.start given) = .ok q := ⟨_, hs.replay_eq⟩
  have hreplayed := hs.replayed_outputs_eq hq
  have hfound := hs.replayed_owed_eq hq fun s hm => hw.distinct hm
  rw [List.filter_congr fun d hd => by rw [hown d hd, Bool.true_and]] at hfound
  refine ⟨given, p, q, cs, e, hgiven, hs, hq, hs.along.kept.ledger.lists, hlive, howed,
    hreplayed, hfound, ?_, fun name => ?_⟩
  · rw [hfound, howed]
    exact List.filter_sublist.flatMap Completion.owed
  · have houtput : q.context.outputs.get? name = p.context.outputs.get? name ↔
        outputOf (cs.filter fun d => Trace.recorded (exchanges h) d.site) name = outputOf cs name := by
      rw [hreplayed, hlive]
    have hrestored : (q.owed.filter fun o => o.step = name) = (p.owed.filter fun o => o.step = name) ↔
        ∀ d ∈ cs, d.step.name = name → d.step.rollback.isSome → Trace.recorded (exchanges h) d.site := by
      have hswap : (cs.filter fun d => Trace.recorded (exchanges h) d.site).filter
            (fun d => d.step.name = name) = (cs.filter fun d => d.step.name = name).filter
              fun d => Trace.recorded (exchanges h) d.site := List.filter_comm ..
      rw [hfound, howed, owedFor_filter_step, owedFor_filter_step, hswap, owedFor_filter_eq_iff]
      simp only [List.mem_filter, decide_eq_true_eq, and_imp, Completion.owed_eq_nil_iff,
        Option.isSome_iff_ne_none]
      exact forall_congr' fun d => forall_congr' fun _ => forall_congr' fun _ =>
        ⟨fun h hrollback => h.resolve_right hrollback,
          fun h => (Decidable.em _).symm.imp_left h⟩
    exact ⟨fun h => ⟨houtput.1 h.output, hrestored.1 h.owed⟩, fun h => ⟨houtput.2 h.1, hrestored.2 h.2⟩⟩

end Runner

namespace Sample

/-- A step that makes something. -/
def making : Step := { Step.call "a" "make" with rollback := some "undo" }

/-- A group of this step and one that may fail, which is tried twice. -/
def persistent : Step :=
  { ((Step.parallel "group").withMember making).withMember (Step.call "b" "boom") with
    retryPolicy := some ⟨2, 0.0⟩, checkpoint := true }

/-- A workflow of this group, which saves a checkpoint. -/
def insisting : Workflow := { Workflow.empty "wf" with steps := [persistent] }

theorem insisting_selfContained : insisting.SelfContained where
  kinds s hs := by
    rintro ⟨workflow, inputs, hk⟩
    have hsteps : insisting.steps.flatMap Step.subtree =
        insisting.steps ++ insisting.steps.flatMap Step.nested := rfl
    rw [hsteps] at hs
    obtain rfl | hs := List.mem_cons.1 hs
    · contradiction
    obtain rfl | hs := List.mem_cons.1 hs
    · contradiction
    · obtain rfl := List.mem_singleton.1 hs
      contradiction
  names := by decide

/-- Answers by which `boom` fails at first. -/
def patiently (n : Nat) (q : Inquiry String) : q.Answer :=
  q.request.steadily (fun _ => n) fun ticket =>
    if ticket = 16 then .error "boom" else .ok { output := .str (if ticket < 16 then "one" else "two") }

/-- The run up to its checkpoint. -/
def insisted : History (Inquiry String) Inquiry.Answer × RunScript String (Except Refusal Execution) :=
  followTo patiently savesNow 0 (owingRunner.run insisting "r" [])

theorem insisted_leads : (owingRunner.run insisting "r" []).Leads insisted.1 insisted.2 :=
  followTo_leads _ _ _ _

theorem insisted_saves : ∃ c, insisted.2.AsksToSave c ∧ c.steps.length = 1 :=
  ⟨_, ⟨_, _, _, rfl, rfl⟩, rfl⟩

theorem insisted_lists : Trace.Lists (exchanges insisted.1) (Trace.completions (exchanges insisted.1)) :=
  ⟨.refl _, by decide +kernel⟩

end Sample

namespace Runner

open Sample

/-- Live, the run owes a compensation for each try of the member; after a replay, for the last one. -/
theorem run_replayed_groups_insisting : ∃ c p q cs e, insisted.2.AsksToSave c ∧
    owingRunner.Saves insisting "r" [] (exchanges insisted.1) insisted.2 c p cs e ∧
    Place.replay 0 insisting.steps c.steps (owingRunner.start []) = .ok q ∧
    p.owed = [⟨"a", "undo", .str "one"⟩, ⟨"a", "undo", .str "two"⟩] ∧
    q.owed = [⟨"a", "undo", .str "two"⟩] ∧ q.Restores p "b" ∧ ¬ q.Restores p "a" := by
  obtain ⟨c, hc, -⟩ := insisted_saves
  obtain ⟨given, p, q, cs, e, hgiven, hs, hq, hl, -, hlive, -, hreplayed, -, hrestores⟩ :=
    run_replayed_groups insisting_selfContained insisted_leads hc
  obtain rfl : [] = given := Except.ok.inj hgiven
  obtain rfl := hl.eq insisted_lists
  refine ⟨c, p, q, _, e, hc, hs, hq, hlive, hreplayed, (hrestores "b").2 ⟨rfl, by decide⟩, fun h => ?_⟩
  have hall := ((hrestores "a").1 h).2
  revert hall
  decide

/-- **Not every replay restores the steps inside** a step that is tried again, may be skipped or has a
fallback. -/
theorem not_replay_restores_groups : ¬ ∀ (r : Runner String) (w : Workflow) (id : String)
    (inputs given : Fields) (h : History (Inquiry String) Inquiry.Answer)
    (s' : RunScript String (Except Refusal Execution)) (c : Checkpoint) (p q : Place)
    (cs : List Completion) (e : Effects), w.SelfContained → (r.run w id inputs).Leads h s' →
      s'.AsksToSave c → r.Saves w id given (exchanges h) s' c p cs e →
      Place.replay 0 w.steps c.steps (r.start given) = .ok q →
      ∀ s ∈ w.steps.take c.steps.length, s.isSimple = false →
        s.retryPolicy.isSome ∨ s.skipOnError ∨ s.onError.isSome →
        ∀ i ∈ s.nested.flatMap Step.subtree, (∃ d ∈ cs, d.step = i) → q.Restores p i.name := by
  intro hall
  obtain ⟨c, hc, hlength⟩ := insisted_saves
  obtain ⟨given, p, cs, e, -, hs⟩ := run_saves insisted_leads hc
  obtain rfl := hs.along.kept.ledger.lists.eq insisted_lists
  have htaken : persistent ∈ insisting.steps.take c.steps.length := by
    rw [hlength]
    exact List.mem_singleton_self _
  have hrestores := hall _ _ _ _ _ _ _ c p _ _ e insisting_selfContained insisted_leads hc hs hs.replay_eq
    persistent htaken rfl (.inl rfl) making List.mem_cons_self ⟨_, List.mem_cons_self, rfl⟩
  have howed := hrestores.owed
  rw [hs.replayed_owed_eq hs.replay_eq fun s hm => insisting_selfContained.distinct hm, hs.owed_eq] at howed
  have hone : [Compensation.mk "a" "undo" (.str "two")] =
      [⟨"a", "undo", .str "one"⟩, ⟨"a", "undo", .str "two"⟩] := howed
  simp at hone

end Runner

end Stepflow
