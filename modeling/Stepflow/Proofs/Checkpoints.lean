import Stepflow.Proofs.Checkpoint.Trace
import Stepflow.Proofs.Continuation
import Stepflow.Proofs.Endings

/-!
# The discipline of checkpoints

A run with a store saves one checkpoint after each of its own steps that is marked and done, of the
results up to this step, and stops at the first that cannot be saved. Any of them can be resumed from:
the run that is resumed is not refused, takes over the results, and leaves the steps that they are of
alone. The checkpoints of a run are removed when it succeeds, if that is configured, and never else; the
checkpoints of other runs stay as they are.
-/

namespace Stepflow

open Script

variable {κ : Type} {r : Runner κ} {w : Workflow} {id : String} {inputs given : Fields} {scope : Scope}
  {s : Step} {ss : List Step} {p p' q : Place} {h k : History (Inquiry κ) Inquiry.Answer}
  {x : Execution} {ending : Ending} {results new before : List StepResult} {t u : Trace κ}
  {o : StepOutcome} {c : Checkpoint}

/-! ## What is to be saved -/

/-- **What a run is to save**: after every step that is marked and done the results up to it, where those
in `before` come first. -/
def snapshots (before : List StepResult) : List Step → List StepResult → List (List StepResult)
  | s :: ss, result :: results =>
    (if s.checkpoint && result.status.isDone then [before ++ [result]] else []) ++
      snapshots (before ++ [result]) ss results
  | _, _ => []

@[simp] theorem snapshots_nil (ss : List Step) : snapshots before ss [] = [] := by
  cases ss <;> rfl

@[simp] theorem snapshots_of_nil (results : List StepResult) : snapshots before [] results = [] := by
  cases results <;> rfl

theorem snapshots_append (ss : List Step) (new tail : List StepResult) :
    snapshots before ss (new ++ tail) =
      snapshots before ss new ++ snapshots (before ++ new) (ss.drop new.length) tail := by
  induction new generalizing before ss with
  | nil => simp
  | cons result new ih =>
    cases ss with
    | nil => simp
    | cons s ss =>
      rw [List.cons_append, snapshots, snapshots, ih, List.append_assoc, List.append_assoc]
      rfl

/-- Results of steps that are not done are not saved. -/
theorem snapshots_eq_nil (h : ∀ result ∈ results, result.status.isDone = false) (ss : List Step) :
    snapshots before ss results = [] := by
  induction results generalizing before ss with
  | nil => exact snapshots_nil ss
  | cons result results ih =>
    cases ss with
    | nil => rfl
    | cons s ss =>
      obtain ⟨hfirst, hrest⟩ := List.forall_mem_cons.1 h
      rw [snapshots, hfirst, Bool.and_false, ih hrest]
      rfl

/-- **A snapshot holds the first results**, and more than come before. -/
theorem snapshots_prefix {snapshot : List StepResult} (h : snapshot ∈ snapshots before ss results) :
    snapshot <+: before ++ results ∧ before.length < snapshot.length := by
  induction results generalizing before ss with
  | nil => simp at h
  | cons result results ih =>
    cases ss with
    | nil => contradiction
    | cons s ss =>
      rw [snapshots, List.mem_append] at h
      obtain h | h := h
      · split at h
        · obtain rfl := List.mem_singleton.1 h
          refine ⟨?_, by simp⟩
          rw [List.prefix_append_right_inj]
          exact List.cons_prefix_cons.2 ⟨rfl, List.nil_prefix⟩
        · contradiction
      · obtain ⟨hfirst, hlen⟩ := ih h
        rw [List.append_assoc, List.singleton_append] at hfirst
        rw [List.length_append, List.length_singleton] at hlen
        exact ⟨hfirst, by omega⟩

/-- **Every snapshot extends those before it.** -/
theorem snapshots_pairwise (before : List StepResult) (ss : List Step) (results : List StepResult) :
    (snapshots before ss results).Pairwise fun a b => a <+: b ∧ a.length < b.length := by
  induction results generalizing before ss with
  | nil => simp
  | cons result results ih =>
    cases ss with
    | nil => exact .nil
    | cons s ss =>
      rw [snapshots, List.pairwise_append]
      refine ⟨?_, ih _ _, fun a ha b hb => ?_⟩
      · split
        · exact List.pairwise_singleton _ _
        · exact .nil
      · split at ha
        · obtain rfl := List.mem_singleton.1 ha
          obtain ⟨hfirst, hlen⟩ := snapshots_prefix hb
          exact ⟨List.prefix_of_prefix_length_le (List.prefix_append _ _) hfirst hlen.le, hlen⟩
        · contradiction

/-! ## What is saved -/

/-- What a save says, but for the identifier and the time of the checkpoint, and the answer. -/
def Saved.content (saved : Saved) : String × String × String × List StepResult :=
  (saved.run, saved.checkpoint.workflow, saved.checkpoint.inputsHash, saved.checkpoint.steps)

/-- A checkpoint that was not saved, and stopped the run: it holds all results, and the error of the run
tells of it. -/
def Saved.Stops (saved : Saved) (results : List StepResult) (error : Option String) : Prop :=
  ∃ e s, saved.answer = .error e ∧ saved.checkpoint.steps = results ∧ results.getLast? = some s ∧
    error = some ("checkpoint after step '" ++ s.name ++ "' failed: " ++ e.message)

/-- A trace saves these results of a run, one after the other, and removes nothing. -/
structure Trace.SavesFor (w : Workflow) (run : String) (inputs : Fields)
    (results : List (List StepResult)) (t : Trace κ) : Prop where
  /-- Under the run, with the name of the workflow and the fingerprint of the inputs. -/
  saves : (saves t).map Saved.content =
    results.map fun steps => (run, w.name, inputsHash inputs, steps)
  /-- No checkpoint is removed. -/
  clears : clears t = []

namespace Trace.SavesFor

variable {rs rs' : List (List StepResult)}

theorem nil : SavesFor w id inputs [] ([] : Trace κ) := ⟨rfl, rfl⟩

theorem append (ht : t.SavesFor w id inputs rs) (hu : u.SavesFor w id inputs rs') :
    (t ++ u).SavesFor w id inputs (rs ++ rs') where
  saves := by rw [saves_append, List.map_append, List.map_append, ht.saves, hu.saves]
  clears := by rw [clears_append, ht.clears, hu.clears]; rfl

theorem of_storesNothing (ht : t.StoresNothing) : t.SavesFor w id inputs [] :=
  ⟨by rw [ht.saves]; rfl, ht.clears⟩

end Trace.SavesFor

/-- What is saved is one of the results. -/
theorem Saved.of_content {saves : List Saved} {rs : List (List StepResult)}
    (h : saves.map Saved.content = rs.map fun steps => (id, w.name, inputsHash inputs, steps))
    {saved : Saved} (hm : saved ∈ saves) :
    saved.checkpoint.steps ∈ rs ∧ saved.run = id ∧ saved.checkpoint.workflow = w.name ∧
      saved.checkpoint.inputsHash = inputsHash inputs := by
  have hcontent : saved.content ∈ rs.map fun steps => (id, w.name, inputsHash inputs, steps) := by
    rw [← h]
    exact List.mem_map_of_mem hm
  obtain ⟨steps, hsteps, heq⟩ := List.mem_map.1 hcontent
  simp only [Saved.content, Prod.mk.injEq] at heq
  obtain ⟨hrun, hname, hhash, rfl⟩ := heq
  exact ⟨hsteps, hrun.symm, hname.symm, hhash.symm⟩

namespace Runner

variable {run : Context → Step → RunScript κ StepOutcome}

theorem Takes.storesNothing (hrun : ∀ c s, (run c s).AsksOnly Inquiry.StoresNothing)
    (ht : Takes run s p h o) : Trace.StoresNothing (exchanges h) := by
  obtain ⟨u⟩ := ht
  refine List.forall_mem_cons.2 ⟨⟨nofun, nofun⟩, ?_⟩
  exact (RunScript.asksOnly_under ((hrun p.context s).mono fun q =>
    Inquiry.allowsSteps_storesNothing.into q _)).of_traces u.traces

/-- **After a step that is done** a run saves its results, if the step is marked. -/
theorem saving_saves {saved : Except CheckpointError Unit} (hp : scope.persist = true)
    (u : (saving w scope inputs s results : RunScript κ _).Unfolds h saved) :
    Trace.SavesFor w scope.runId inputs (if s.checkpoint then [results] else []) (exchanges h) ∧
      ∀ i ∈ Trace.saves (exchanges h), i.answer = saved := by
  obtain ⟨hpersist, rfl, -⟩ | ⟨hpersist, cid, savedAt, rfl⟩ := saving_unfolds u
  · rw [hp, Bool.and_true] at hpersist
    rw [hpersist]
    exact ⟨.nil, nofun⟩
  · rw [hp, Bool.and_true] at hpersist
    rw [hpersist]
    rcases saved with e | _
    · exact ⟨⟨rfl, rfl⟩, List.forall_mem_singleton.2 rfl⟩
    · exact ⟨⟨rfl, rfl⟩, List.forall_mem_singleton.2 rfl⟩

theorem Goes.saves (hrun : ∀ c s, (run c s).AsksOnly Inquiry.StoresNothing)
    (hp : scope.persist = true) (hgo : Goes run (saving w scope inputs) s p h o) :
    Trace.SavesFor w scope.runId inputs
        (if s.checkpoint && o.result.status.isDone then [p.results ++ [o.result]] else [])
        (exchanges h) ∧
      ∀ i ∈ Trace.saves (exchanges h), i.answer = .ok () := by
  cases hgo with
  | skipped ht hs =>
    have hnothing := ht.storesNothing hrun
    rw [hs, hnothing.saves]
    refine ⟨?_, nofun⟩
    rw [show StepStatus.skipped.isDone = false from rfl, Bool.and_false]
    exact .of_storesNothing hnothing
  | saved ht hdone hsave =>
    have hnothing := ht.storesNothing hrun
    obtain ⟨hsaves, hanswer⟩ := saving_saves hp hsave
    rw [exchanges_append, Trace.saves_append, hnothing.saves, hdone, Bool.and_true]
    exact ⟨(Trace.SavesFor.of_storesNothing hnothing).append hsaves, hanswer⟩

/-- **A run that passes** from place to place saves what it is to save, and each is saved. -/
theorem Passes.saves (hrun : ∀ c s, (run c s).AsksOnly Inquiry.StoresNothing)
    (hp : scope.persist = true) {left : List Step}
    (hpass : Passes run (saving w scope inputs) ss p h left p') :
    ∃ new, p'.results = p.results ++ new ∧ left = ss.drop new.length ∧
      Trace.SavesFor w scope.runId inputs (snapshots p.results ss new) (exchanges h) ∧
      ∀ i ∈ Trace.saves (exchanges h), i.answer = .ok () := by
  induction hpass with
  | here ss p =>
    refine ⟨[], (List.append_nil _).symm, rfl, ?_, nofun⟩
    rw [snapshots_nil]
    exact .nil
  | @step s rest left p p' o h k hgo _ ih =>
    obtain ⟨new, hresults, rfl, hsaves, hanswer⟩ := ih
    obtain ⟨hfirst, hanswer'⟩ := hgo.saves hrun hp
    refine ⟨o.result :: new, ?_, rfl, ?_, fun i hi => ?_⟩
    · rw [hresults]
      simp [Place.after]
    · rw [exchanges_append]
      exact hfirst.append hsaves
    · rw [exchanges_append, Trace.saves_append, List.mem_append] at hi
      exact hi.elim (hanswer' i) (hanswer i)

/-- **A run that stops** saves nothing more, or fails to save what it is to save after the last step. -/
theorem Stops.saves (hrun : ∀ c s, (run c s).AsksOnly Inquiry.StoresNothing)
    (hp : scope.persist = true) (hk : ∀ s ∈ ss, ∀ c, s.Keeps r (run c s))
    (hs : Stops run (saving w scope inputs) ss q h p' ending) :
    ∃ tail, resultsAtEnd w ending p'.results = q.results ++ tail ∧
      Trace.SavesFor w scope.runId inputs (snapshots q.results ss tail) (exchanges h) ∧
      ∀ i ∈ Trace.saves (exchanges h), i.Stops (q.results ++ tail) ending.error? := by
  have hquiet : ∀ {tail : List StepResult}, (∀ result ∈ tail, result.status.isDone = false) →
      Trace.StoresNothing (exchanges h) →
      Trace.SavesFor w scope.runId inputs (snapshots q.results ss tail) (exchanges h) := by
    intro tail htail hnothing
    rw [snapshots_eq_nil htail]
    exact .of_storesNothing hnothing
  have hcancelled : ∀ (ss : List Step), ∀ s ∈ ss.map StepResult.cancelled, s.status.isDone = false := by
    intro ss s hm
    obtain ⟨i, -, rfl⟩ := List.mem_map.1 hm
    rfl
  cases hs with
  | finished =>
    refine ⟨[], (List.append_nil _).symm, ?_, nofun⟩
    rw [snapshots_nil]
    exact .nil
  | cancelledBefore s rest =>
    have hnothing : Trace.StoresNothing (exchanges [(pollTurn true : Turn (Inquiry κ) _)]) :=
      List.forall_mem_singleton.2 ⟨nofun, nofun⟩
    refine ⟨_, rfl, hquiet (hcancelled _) hnothing, ?_⟩
    rw [hnothing.saves]
    nofun
  | @cancelled s _ _ o rest ht hstatus =>
    have hnothing := ht.storesNothing hrun
    refine ⟨o.result :: (w.steps.drop (q.after o).results.length).map StepResult.cancelled, ?_,
      hquiet (List.forall_mem_cons.2 ⟨by rw [hstatus]; rfl, hcancelled _⟩) hnothing, ?_⟩
    · exact List.append_assoc _ _ _
    · rw [hnothing.saves]
      nofun
  | @failed s _ _ o rest ht hstatus =>
    have hnothing := ht.storesNothing hrun
    refine ⟨[o.result], rfl, hquiet (List.forall_mem_singleton.2 (by rw [hstatus]; rfl)) hnothing, ?_⟩
    rw [hnothing.saves]
    nofun
  | @unsaved s _ h₁ h₂ o e rest ht hdone hsave =>
    have hnothing := ht.storesNothing hrun
    obtain ⟨hsaves, hanswer⟩ := saving_saves hp hsave
    have hname : o.result.name = s.name := ht.name (hk s List.mem_cons_self)
    have hfor : Trace.SavesFor w scope.runId inputs (snapshots q.results (s :: rest) [o.result])
        (exchanges (h₁ ++ h₂)) := by
      rw [snapshots, snapshots_nil, List.append_nil, hdone, Bool.and_true, exchanges_append]
      exact (Trace.SavesFor.of_storesNothing hnothing).append hsaves
    refine ⟨[o.result], rfl, hfor, fun i hi => ⟨e, o.result, ?_, ?_, by simp, by rw [hname]; rfl⟩⟩
    · rw [exchanges_append, Trace.saves_append, hnothing.saves] at hi
      exact hanswer i hi
    -- it is the only snapshot
    · have hsteps := (Saved.of_content hfor.saves hi).1
      rw [snapshots, snapshots_nil, List.append_nil] at hsteps
      split at hsteps
      · exact List.mem_singleton.1 hsteps
      · contradiction

/-! ## What is removed -/

/-- **At its end** a run removes its checkpoints if it succeeded and that is configured. -/
theorem conclude_clears {began : Nat} (u : (r.conclude w scope began p ending).Unfolds h x) :
    ((x.result.success && (scope.persist && r.config.clearOnSuccess)) = true ∧
      ∃ answer t, exchanges h = ⟨{ request := .clear scope.runId }, answer⟩ :: t ∧
        Trace.StoresNothing t) ∨
    ((x.result.success && (scope.persist && r.config.clearOnSuccess)) = false ∧
      Trace.StoresNothing (exchanges h)) := by
  have hsuccess := (conclude_unfolds u).1.success
  obtain ⟨h₁, h₂, owed, u₁, u₂, rfl⟩ := unfolds_andThen.1 u
  have hb := Inquiry.allowsSteps_storesNothing (κ := κ)
  have hend : Trace.StoresNothing (exchanges h₂) := by
    refine AsksOnly.of_traces ?_ u₂.traces
    refine AsksOnly.andThen ?_ fun _ => (asksOnly_request.2 (hb.tell _ _ _)).andThen fun _ => trivial
    exact (asksOnly_request.2 (hb.work _ .now)).andThen fun _ => trivial
  have hsettled : Trace.StoresNothing (exchanges h₁) →
      Trace.StoresNothing (exchanges (h₁ ++ h₂)) := fun h₁ e he => by
    rw [exchanges_append, List.mem_append] at he
    exact he.elim (h₁ e) (hend e)
  cases ending with
  | failed error =>
    have hrollback : (r.settle w.name scope p.owed (.failed error)).AsksOnly Inquiry.StoresNothing :=
      (asksOnly_rollback (fun q hq => hb.work q hq.isWork) fun _ _ => hb.tell _ _ _).andThen fun _ => trivial
    exact .inr ⟨by rw [hsuccess]; rfl, hsettled (hrollback.of_traces u₁.traces)⟩
  | cancelled =>
    obtain ⟨rfl, -⟩ := unfolds_done.1 u₁
    exact .inr ⟨by rw [hsuccess]; rfl, hsettled Trace.storesNothing_nil⟩
  | finished =>
    have hstate : x.result.success = true := hsuccess
    obtain ⟨h₃, h₄, _, u₃, u₄, rfl⟩ := unfolds_andThen.1 u₁
    obtain ⟨rfl, -⟩ := unfolds_done.1 u₄
    unfold clearCheckpoints at u₃
    split at u₃
    · rename_i hclear
      obtain ⟨answer, h₅, u₅, rfl⟩ := unfolds_ask.1 u₃
      obtain ⟨rfl, -⟩ := unfolds_done.1 u₅
      exact .inl ⟨by rw [hstate, hclear]; rfl, answer, exchanges h₂, rfl, hend⟩
    · rename_i hclear
      obtain ⟨rfl, -⟩ := unfolds_done.1 u₃
      exact .inr ⟨by rw [hstate, Bool.eq_false_iff.2 hclear]; rfl, hsettled Trace.storesNothing_nil⟩

/-- **A whole run** saves what it is to save, and then may remove it. -/
theorem Course.stores (hp : scope.persist = true)
    (hc : Course r (r.execute r.levels) w inputs scope [] h x) :
    ∃ t u : Trace κ, exchanges h = t ++ u ∧
      t.SavesFor w scope.runId inputs (snapshots [] w.steps x.result.steps) ∧
      (∀ i ∈ Trace.saves t, i.answer = .ok () ∨ i.Stops x.result.steps x.result.error) ∧
      ((x.result.success && r.config.clearOnSuccess) = true ∧
          (∃ answer, ∃ v : Trace κ, u = ⟨{ request := .clear scope.runId }, answer⟩ :: v ∧
            v.StoresNothing) ∨
        (x.result.success && r.config.clearOnSuccess) = false ∧ u.StoresNothing) := by
  obtain @⟨p, q, p', left, began, ending, x, h₁, h₂, h₃, hreplay, hpasses, hstops, hends⟩ := hc
  obtain rfl : r.start inputs = p := by
    rw [Place.replay] at hreplay
    exact Except.ok.inj hreplay
  have hrun : ∀ c s, (r.step (r.execute r.levels) c scope s).AsksOnly Inquiry.StoresNothing :=
    asksOnly_steps_of_run Inquiry.allowsSteps_storesNothing
  obtain ⟨new, hq, rfl, hsaves, hanswer⟩ := hpasses.saves hrun hp
  obtain ⟨tail, hall, hsaves', hanswer'⟩ := hstops.saves hrun hp fun s _ c => steps_keep r s c scope
  obtain ⟨hof, hsteps⟩ := conclude_unfolds hends
  have hclears := conclude_clears hends
  rw [hp, Bool.true_and] at hclears
  have hnew : q.results = new := hq
  rw [hnew] at hall hsaves' hanswer'
  rw [hall] at hsteps
  have hbegun : Trace.StoresNothing (exchanges (begun w scope began 0 : History (Inquiry κ) _)) :=
    List.forall_mem_cons.2 ⟨Inquiry.allowsSteps_storesNothing.work _ .now,
      List.forall_mem_singleton.2 (Inquiry.allowsSteps_storesNothing.tell _ _ _)⟩
  refine ⟨exchanges (begun w scope began 0 ++ (h₁ ++ h₂)), exchanges h₃, ?_, ?_, fun i hi => ?_, hclears⟩
  · simp only [exchanges_append, List.append_assoc]
    rfl
  · rw [exchanges_append, exchanges_append, hsteps, snapshots_append]
    exact (Trace.SavesFor.of_storesNothing hbegun).append (hsaves.append hsaves')
  · simp only [exchanges_append, Trace.saves_append, hbegun.saves, List.nil_append,
      List.mem_append] at hi
    rw [hsteps, hof.error]
    exact hi.imp (hanswer i) (hanswer' i)

/-! ## What can be resumed -/

end Runner

/-- **The request leaves the first `n` steps of the workflow alone**: it is one of no step, or one of a
step after them. -/
inductive Inquiry.Spares (w : Workflow) (n : Nat) : Inquiry κ → Prop
  /-- It is made at no layer, and about no step. -/
  | ofNone (request : Request κ) : Spares w n { request }
  /-- It is made in the layer of a later step; and if in no other, it is about this step, or none. -/
  | ofStep {j : Nat} {s : Step} {q : Inquiry κ} : n ≤ j → w.steps[j]? = some s →
      (q.site = [] → ∀ i ∈ q.step, i = s) → Spares w n (q.into (.declared j))

namespace Runner

/-- **A run can be resumed from a checkpoint.** It asks for the newest one; given this one it is not
refused, whatever it is answered then; it takes over what is recorded, and leaves the steps recorded
alone. -/
def ResumesFrom (r : Runner κ) (w : Workflow) (id : String) (inputs : Fields) (c : Checkpoint) : Prop :=
  ∃ next, r.resume w id inputs = .ask { request := .latest id } next ∧
    ∀ k y, (next (.ok (some c))).Unfolds k y → ∃ z, y = .ok z ∧ c.steps <+: z.result.steps ∧
      ∀ e ∈ exchanges k, e.request.Spares w c.steps.length

/-- **A checkpoint of the first steps**, of this workflow and with these inputs, can be resumed from. -/
theorem resumesFrom (hstore : r.hasStore = true) (hgiven : w.resolveInputs inputs = .ok given)
    (hne : c.steps ≠ []) (hnames : c.steps.map StepResult.name <+: w.steps.map Step.name)
    (hname : c.workflow = w.name) (hhash : c.inputsHash = inputsHash given) :
    r.ResumesFrom w id inputs c := by
  have hsteps : w.steps.isEmpty = false := by
    rw [List.isEmpty_eq_false_iff]
    intro hnil
    rw [hnil, List.map_nil] at hnames
    exact hne (List.map_eq_nil_iff.1 (List.prefix_nil.1 hnames))
  obtain ⟨next, hresume, hnext⟩ :=
    resume_eq id hstore hgiven hsteps hname hhash (Place.replay_eq 0 hnames (r.start given))
  refine ⟨next, hresume, fun k y u => ?_⟩
  have hspares : (next (.ok (some c))).AsksOnly (Inquiry.Spares w c.steps.length) := by
    rw [hnext]
    refine (asksOnly_request.2 (.ofNone _)).andThen fun began =>
      (asksOnly_request.2 (.ofNone _)).andThen fun _ => ?_
    refine asksOnly_goOn (fun q hq => ?_) (fun _ _ => .ofNone _) (fun _ _ => .ofNone _)
      (fun i s hi context => ?_) fun _ _ =>
        asksOnly_saving_of (.ofNone _) (.ofNone _) (fun _ _ => .ofNone _) fun _ => .ofNone _
    · cases hq <;> exact .ofNone _
    · rw [List.getElem?_drop] at hi
      exact RunScript.asksOnly_under ((step_speaks_of_itself s).mono fun q =>
        .ofStep (Nat.le_add_right _ i) hi)
  obtain ⟨z, rfl⟩ : ∃ z, y = .ok z := by
    rw [hnext] at u
    obtain ⟨_, _, u₁, -⟩ := unfolds_ask.1 u
    obtain ⟨_, _, u₂, -⟩ := unfolds_ask.1 u₁
    exact goOn_ok u₂
  have hresumed : r.Ran w c.steps (.asked ⟨{ request := .latest id }, .ok (some c)⟩ :: k) z := by
    have u' : (r.resume w id inputs).Unfolds
        (.asked ⟨{ request := .latest id }, .ok (some c)⟩ :: k) (.ok z) := by
      rw [hresume]
      exact .ask _ u
    exact .resume u'
  obtain ⟨levels, resolved, scope, k', hcourse, -⟩ := hresumed.course
  obtain ⟨ending, well, rest, -, hresult, -⟩ := hcourse.result
  exact ⟨z, rfl, hresult ▸ List.prefix_append _ _, hspares.of_traces u.traces⟩

end Runner

/-! ## The discipline -/

/-- **What a run does with its checkpoints.** -/
structure Execution.Checkpointed (r : Runner κ) (w : Workflow) (id : String) (given : Fields)
    (t : Trace κ) (x : Execution) : Prop where
  /-- It saves one after each of its steps that is marked and done, of the results up to it, in order and
  under its identifier; runs inside steps save none. -/
  saves : (Trace.saves t).map Saved.content =
    (snapshots [] w.steps x.result.steps).map fun steps => (id, w.name, inputsHash given, steps)
  /-- Each holds the results of the one before, and more. -/
  extend : (Trace.saves t).Pairwise fun a b => a.checkpoint.steps <+: b.checkpoint.steps ∧
    a.checkpoint.steps.length < b.checkpoint.steps.length
  /-- All hold first results of the run, and only of steps that passed, were fixed or were skipped. -/
  success : ∀ saved ∈ Trace.saves t, saved.checkpoint.steps <+: x.result.steps ∧
    ∀ s ∈ saved.checkpoint.steps, s.success
  /-- All are saved, but for one that stops the run. -/
  answered : ∀ saved ∈ Trace.saves t,
    saved.answer = .ok () ∨ saved.Stops x.result.steps x.result.error
  /-- It removes its own if it succeeds and that is configured. -/
  clears : Trace.clears t = if x.result.success && r.config.clearOnSuccess then [id] else []

/-- **What a run leaves in a store** that was in a state when it began. -/
structure Execution.Leaves {σ : Type} (r : Runner κ) (id : String) (S : CheckpointStore σ) (a : σ)
    (t : Trace κ) (x : Execution) : Prop where
  /-- If it succeeded, and that is configured, none of its own. -/
  cleared : x.result.success = true → r.config.clearOnSuccess = true → S.HasNone id (S.after a t)
  /-- If not, all that there was at any time, unless another was saved under the same identifier. -/
  kept : (x.result.success && r.config.clearOnSuccess) = false → ∀ t₁ t₂ run cid c, t = t₁ ++ t₂ →
    S.load run cid (S.after a t₁) = .ok c → (∀ saved ∈ Trace.saves t₂, saved.checkpoint.id ≠ cid) →
    S.load run cid (S.after a t) = .ok c
  /-- And those of other runs as they were. -/
  others : ∀ other, id ≠ other → S.Same other (S.after a t) a

/-- What the results end in is not done, however the run ended. -/
theorem Ending.Closes.not_done {rest : List StepResult} (hc : ending.Closes h results rest) :
    ∀ s ∈ rest, s.status.isDone = false := by
  intro s hm
  cases ending with
  | finished =>
    obtain rfl : rest = [] := hc
    contradiction
  | cancelled =>
    rw [hc.2 s hm]
    rfl
  | failed error =>
    obtain ⟨i, rfl, hstatus, -⟩ | ⟨rfl, -⟩ := hc
    · rw [List.mem_singleton.1 hm, hstatus]
      rfl
    · contradiction

namespace Runner

/-- Results that are to be saved are first results, and of steps that went well. -/
theorem Course.snapshots_success {levels : Nat}
    (hc : Course r (r.execute levels) w inputs scope [] h x) {snapshot : List StepResult}
    (hm : snapshot ∈ snapshots [] w.steps x.result.steps) :
    snapshot <+: x.result.steps ∧ ∀ s ∈ snapshot, s.success := by
  obtain ⟨ending, well, rest, -, hsteps, -, -, hwell, hcloses⟩ := hc.result
  rw [List.nil_append] at hsteps
  rw [hsteps, snapshots_append, snapshots_eq_nil hcloses.not_done, List.append_nil] at hm
  obtain ⟨hfirst, -⟩ := snapshots_prefix hm
  rw [List.nil_append] at hfirst
  rw [hsteps]
  exact ⟨hfirst.trans (List.prefix_append _ _), fun s hs => hwell s (hfirst.subset hs)⟩

theorem Course.checkpointed (hc : Course r (r.execute r.levels) w given (.root w.name id true) [] h x) :
    x.Checkpointed r w id given (exchanges h) := by
  obtain ⟨t, u, hall, hsaves, hanswered, hclears⟩ := hc.stores rfl
  -- what comes after the saves saves nothing
  have hend : Trace.saves u = [] ∧
      Trace.clears u = if x.result.success && r.config.clearOnSuccess then [id] else [] := by
    obtain ⟨hclear, answer, v, rfl, hnothing⟩ | ⟨hclear, hnothing⟩ := hclears
    · rw [hclear]
      exact ⟨hnothing.saves, congrArg (List.cons id) hnothing.clears⟩
    · rw [hclear]
      exact ⟨hnothing.saves, hnothing.clears⟩
  have hsame : Trace.saves (exchanges h) = Trace.saves t := by
    rw [hall, Trace.saves_append, hend.1, List.append_nil]
  refine ⟨?_, ?_, fun saved hm => ?_, fun saved hm => ?_, ?_⟩
  · rw [hsame]
    exact hsaves.saves
  · have hsteps : (Trace.saves t).map (fun saved => saved.checkpoint.steps) =
        snapshots [] w.steps x.result.steps := by
      have hcontent := congrArg (List.map fun content => content.2.2.2) hsaves.saves
      rw [List.map_map, List.map_map] at hcontent
      exact hcontent.trans (List.map_id _)
    have hpairwise := snapshots_pairwise [] w.steps x.result.steps
    rw [← hsteps, List.pairwise_map] at hpairwise
    rw [hsame]
    exact hpairwise
  · rw [hsame] at hm
    exact hc.snapshots_success (Saved.of_content hsaves.saves hm).1
  · rw [hsame] at hm
    exact hanswered saved hm
  · rw [hall, Trace.clears_append, hsaves.clears, hend.2]
    rfl

theorem Course.leaves (hc : Course r (r.execute r.levels) w given (.root w.name id true) [] h x)
    {σ : Type} {S : CheckpointStore σ} (hS : S.Lawful) (a : σ) : x.Leaves r id S a (exchanges h) := by
  have hcheckpointed := hc.checkpointed
  have hmine : ∀ saved ∈ Trace.saves (exchanges h), saved.run = id := fun saved hm =>
    (Saved.of_content hcheckpointed.saves hm).2.1
  refine ⟨fun hsuccess hclear => ?_, fun hnot t₁ t₂ run cid c hsplit hload hother => ?_,
    fun other hne => hS.after_other (fun saved hm => hmine saved hm ▸ hne) (fun run hm => ?_) a⟩
  · obtain ⟨t, u, hall, -, -, hclears⟩ := hc.stores rfl
    rw [hsuccess, hclear] at hclears
    obtain ⟨-, answer, v, rfl, hnothing⟩ | ⟨hfalse, -⟩ := hclears
    · rw [hall]
      exact hS.after_clear hnothing a
    · contradiction
  · have hnone := hcheckpointed.clears
    rw [hnot, hsplit, Trace.clears_append] at hnone
    rw [hsplit, CheckpointStore.after_append]
    exact hS.after_load hother (List.append_eq_nil_iff.1 hnone).2 hload
  · rw [hcheckpointed.clears] at hm
    split at hm
    · rw [List.mem_singleton.1 hm]
      exact hne
    · contradiction

/-- **The discipline of checkpoints.** A run with a store that starts saves one checkpoint after each of
its own steps that is marked and done, of all results up to this one, and no others; all are saved, but
for one that stops the run. From any of them the run can be resumed, by any runner with a store, with the
same inputs. A lawful store has none of the run's checkpoints in the end if the run succeeded and is to
remove them; if not, it has lost none; and other runs have theirs as before. -/
theorem run_checkpoints (hstore : r.hasStore = true) (u : (r.run w id inputs).Unfolds h (.ok x)) :
    ∃ given, w.resolveInputs inputs = .ok given ∧
      x.Checkpointed r w id given (exchanges h) ∧
      (∀ saved ∈ Trace.saves (exchanges h), ∀ r' : Runner κ, r'.hasStore = true →
        r'.ResumesFrom w id inputs saved.checkpoint) ∧
      ∀ {σ : Type} (S : CheckpointStore σ), S.Lawful → ∀ a, x.Leaves r id S a (exchanges h) := by
  obtain ⟨given, hgiven, hc⟩ := run_course u
  rw [hstore] at hc
  have hcheckpointed := hc.checkpointed
  refine ⟨given, hgiven, hcheckpointed, fun saved hm r' hstore' => ?_, fun S hS a => hc.leaves hS a⟩
  obtain ⟨hsnapshot, -, hname, hhash⟩ := Saved.of_content hcheckpointed.saves hm
  obtain ⟨ending, well, rest, -, -, hnames, -⟩ := hc.result
  obtain ⟨-, hlen⟩ := snapshots_prefix hsnapshot
  exact resumesFrom hstore' hgiven (List.ne_nil_of_length_pos hlen)
    (((hcheckpointed.success saved hm).1.map StepResult.name).trans hnames) hname hhash

end Runner

namespace Sample

/-- The run of `remaking` saves its first step, and then fails. -/
theorem remaking_fails : ∃ (h : History (Inquiry String) Inquiry.Answer) (x : Execution) (saved : Saved),
    (owingRunner.run remaking "r" []).Unfolds h (.ok x) ∧ x.result.success = false ∧
      Trace.saves (exchanges h) = [saved] ∧ saved.run = "r" ∧
      saved.checkpoint.steps.map StepResult.name = ["first"] :=
  ⟨_, _, _, follow_unfolds answers 0 _, rfl, rfl, rfl, rfl⟩

end Sample

namespace Runner

open Sample

/-- It can be resumed from there, and the store has lost nothing. -/
theorem run_checkpoints_remaking : ∃ (h : History (Inquiry String) Inquiry.Answer) (x : Execution)
    (saved : Saved), (owingRunner.run remaking "r" []).Unfolds h (.ok x) ∧
      Trace.saves (exchanges h) = [saved] ∧ owingRunner.ResumesFrom remaking "r" [] saved.checkpoint ∧
      ∀ (run cid : String) (runs : MemoryStore.Runs) (c : Checkpoint),
        MemoryStore.store.load run cid runs = .ok c → saved.checkpoint.id ≠ cid →
        MemoryStore.store.load run cid (MemoryStore.store.after runs (exchanges h)) = .ok c := by
  obtain ⟨h, x, saved, hu, hfailed, hsaves, -⟩ := remaking_fails
  obtain ⟨given, -, -, hresumes, hleaves⟩ := run_checkpoints rfl hu
  refine ⟨h, x, saved, hu, hsaves, hresumes saved ?_ _ rfl, fun run cid runs c hload hne => ?_⟩
  · rw [hsaves]
    exact List.mem_singleton_self _
  · refine (hleaves _ MemoryStore.store_lawful runs).kept ?_ [] (exchanges h) run cid c rfl hload ?_
    · rw [hfailed]
      rfl
    · rw [hsaves]
      exact List.forall_mem_singleton.2 hne

end Runner

end Stepflow
