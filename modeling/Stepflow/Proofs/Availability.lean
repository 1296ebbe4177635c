import Stepflow.Proofs.Replay
import Stepflow.Proofs.Run.Course
import Stepflow.Proofs.Run.Telling
import Stepflow.Proofs.Validation.References

/-!
# The context is what was told

A run gives each step the outputs of the steps before it. Between two of its steps these are what its
steps have told: of every name the last output (`run_context`). So a step that comes later has no output
yet, and a reference to it, which a check reports, cannot be evaluated where it stands.
-/

namespace Stepflow

open Script Validation

variable {κ : Type} {r : Runner κ} {w : Workflow} {id : String} {inputs given : Fields} {s : Step}
  {ss left : List Step} {p p' : Place} {h : History (Inquiry κ) Inquiry.Answer} {q : Inquiry κ}
  {o : StepOutcome} {execute : Execute κ} {scope : Scope} {began k : Nat}

/-- A reference to the output of a step that has none fails. -/
theorem Expression.evaluate_of_none {e : Expression} {c : Context} {name : String}
    (hroot : e.root = .stepOutput) (hname : e.rootName = name) (h : c.outputs.get? name = none) :
    e.evaluate c = .error ⟨e.dottedPath, .noOutput name⟩ := by
  subst hname
  rw [evaluate, lookup, hroot, h]
  rfl

namespace Runner

/-! ## On the way -/

theorem Goes.tells (hn : (Workflow.namesIn [s]).Nodup)
    (hgo : Goes (fun c s => r.step execute c scope s) (saving w scope inputs) s p h o) :
    Trace.Tells (Workflow.namesIn [s]) o.effects.outputs (exchanges h) := by
  have htakes : ∀ {h : History (Inquiry κ) Inquiry.Answer},
      Takes (fun c s => r.step execute c scope s) s p h o →
      Trace.Tells (Workflow.namesIn [s]) o.effects.outputs (exchanges h) := by
    rintro _ @⟨h, _, u⟩
    obtain ⟨_, rfl, htells⟩ :=
      RunScript.Tells.under (l := .declared p.results.length) nofun (step_tells s hn p.context scope)
        _ _ u.traces
    have hpoll : Trace.Tells (Workflow.namesIn [s]) []
        (exchanges [(pollTurn false : Turn (Inquiry κ) Inquiry.Answer)]) := .of_told rfl
    exact hpoll.append htells
  cases hgo with
  | skipped ht _ => exact htakes ht
  | saved ht _ hsave =>
    have hquiet : Trace.Quiet (exchanges _) :=
      .of_asksOnly ((asksOnly_saving _ _).mono fun _ h => h.1) hsave.traces
    rw [exchanges_append, ← List.append_nil o.effects.outputs]
    exact (htakes ht).append (.of_told hquiet.told)

/-- **A run that passes** from place to place has told what the context has in addition. -/
theorem Passes.tells (hn : (Workflow.namesIn ss).Nodup)
    (hp : Passes (fun c s => r.step execute c scope s) (saving w scope inputs) ss p h left p') :
    ∃ before new, ss = before ++ left ∧ p'.context = p.context.setOutputs new ∧
      Trace.Tells (Workflow.namesIn before) new (exchanges h) := by
  induction hp with
  | here => exact ⟨[], [], rfl, rfl, .of_told rfl⟩
  | @step s rest left p p' o h k hgo _ ih =>
    have hsplit : Workflow.namesIn (s :: rest) = Workflow.namesIn [s] ++ Workflow.namesIn rest :=
      Workflow.namesIn_append [s] rest
    rw [hsplit, List.nodup_append] at hn
    obtain ⟨before, new, rfl, hcontext, htells⟩ := ih hn.2.1
    have hnames : Workflow.namesIn (s :: before) = Workflow.namesIn [s] ++ Workflow.namesIn before :=
      Workflow.namesIn_append [s] before
    refine ⟨s :: before, o.effects.outputs ++ new, rfl, ?_, ?_⟩
    · rw [hcontext, Context.setOutputs_append]
      rfl
    · rw [hnames, exchanges_append]
      exact ((hgo.tells hn.1).mono (List.subset_append_left _ _)).append
        (htells.mono (List.subset_append_right _ _))

end Runner

/-! ## Where a run is about to take a step -/

/-- The request does not ask whether all is cancelled. -/
def Inquiry.PollsNothing (q : Inquiry κ) : Prop := q.request ≠ .isCancelled

namespace Inquiry

theorem IsCall.pollsNothing (hq : q.IsCall) : q.PollsNothing := by
  cases hq <;> nofun

theorem pollsNothing_tell (e : Event) : PollsNothing { request := .tell e : Inquiry κ } := nofun

theorem pollsNothing_now : PollsNothing { request := .now : Inquiry κ } := nofun

theorem pollsNothing_freshId : PollsNothing { request := .freshId : Inquiry κ } := nofun

theorem pollsNothing_today : PollsNothing { request := .today : Inquiry κ } := nofun

theorem pollsNothing_save (run : String) (c : Checkpoint) :
    PollsNothing { request := .save run c : Inquiry κ } := nofun

theorem pollsNothing_clear (run : String) : PollsNothing { request := .clear run : Inquiry κ } := nofun

end Inquiry

namespace Runner

theorem saving_pollsNothing (s : Step) (results : List StepResult) :
    (saving w scope inputs s results : RunScript κ _).AsksOnly Inquiry.PollsNothing :=
  asksOnly_saving_of Inquiry.pollsNothing_freshId Inquiry.pollsNothing_today
    Inquiry.pollsNothing_save fun _ => Inquiry.pollsNothing_tell _

/-- **A run that asks, at no layer, whether all is cancelled** is about to take a step. -/
theorem steps_leads_poll {run : Context → Step → RunScript κ StepOutcome}
    {save : Step → List StepResult → RunScript κ (Except CheckpointError Unit)}
    (hsave : ∀ s results, (save s results).AsksOnly Inquiry.PollsNothing)
    {next : q.Answer → RunScript κ (Place × Ending)} (hsite : q.site = [])
    (hq : q.request = .isCancelled) (l : (steps run save ss p).Leads h (.ask q next)) :
    ∃ left p', Passes run save ss p h left p' ∧ left ≠ [] ∧
      Script.ask q next = steps run save left p' := by
  obtain ⟨h₁, h₂, s, rest, p', hpasses, ha, rfl⟩ := steps_leads l
  cases ha with
  | poll =>
    rw [List.append_nil]
    exact ⟨s :: rest, p', hpasses, List.cons_ne_nil _ _, rfl⟩
  | inside hl =>
    -- what a step asks is in its layer
    have hunder : ((run p'.context s).under (.declared p'.results.length)).AsksOnly
        fun q => q.site ≠ [] :=
      RunScript.asksOnly_under (asksOnly_of_forall (fun _ => List.cons_ne_nil _ _) _)
    exact absurd hsite (hunder.of_leads hl).1
  | saving ht hdone hl => exact absurd hq ((hsave _ _).of_leads hl).1

/-- **A run is about to take the step at the index `k`**: it has come to the place `p`, and goes on from
there. -/
structure Nears (r : Runner κ) (w : Workflow) (id : String) (inputs given : Fields) (began : Nat)
    (h : History (Inquiry κ) Inquiry.Answer) (k : Nat) (p : Place) : Prop where
  /-- It was given these inputs. -/
  resolved : w.resolveInputs inputs = .ok given
  /-- There is such a step. -/
  lt : k < w.steps.length
  /-- It has begun, and has passed from the beginning to the place. -/
  passed : ∃ h', h = begun w (.root w.name id r.hasStore) began 0 ++ h' ∧
    Passes (fun c s => r.step (r.execute r.levels) c (.root w.name id r.hasStore) s)
      (saving w (.root w.name id r.hasStore) given) w.steps (r.start given) h' (w.steps.drop k) p
  /-- It is left with what there is to do from the place. -/
  leads : (r.run w id inputs).Leads h
    (r.goOn (r.execute r.levels) w given (.root w.name id r.hasStore) began (w.steps.drop k) p)

/-- **So it is whenever it asks**, at no layer, whether all is cancelled. -/
theorem run_leads_poll {next : q.Answer → RunScript κ (Except Refusal Execution)}
    (hsite : q.site = []) (hq : q.request = .isCancelled)
    (l : (r.run w id inputs).Leads h (.ask q next)) :
    ∃ given began k p, r.Nears w id inputs given began h k p ∧ Script.ask q next =
      r.goOn (r.execute r.levels) w given (.root w.name id r.hasStore) began (w.steps.drop k) p := by
  have hrun := l
  obtain ⟨given, began, h', next', hgiven, -, rfl, l', rfl⟩ :=
    run_leads_ask (fun _ => Inquiry.IsCall.pollsNothing) Inquiry.pollsNothing_tell
      Inquiry.pollsNothing_clear Inquiry.pollsNothing_now (fun hn => hn hq) l
  obtain ⟨left, p, hpasses, hne, heq⟩ := steps_leads_poll saving_pollsNothing hsite hq l'
  obtain ⟨before, new, hss, -⟩ := hpasses.behind fun s _ c => steps_keep r s c _
  obtain rfl : left = w.steps.drop before.length := by rw [hss, List.drop_left]
  refine ⟨given, began, before.length, p, ⟨hgiven, ?_, ⟨h', rfl, hpasses⟩, ?_⟩, ?_⟩
  · by_contra hle
    exact hne (List.drop_eq_nil_of_le (by omega))
  · rw [goOn, ← heq]
    exact hrun
  · rw [goOn, ← heq]
    rfl

/-- It has a result of each step before. -/
theorem Nears.results_length (hs : r.Nears w id inputs given began h k p) : p.results.length = k := by
  obtain ⟨h', -, hpasses⟩ := hs.passed
  obtain ⟨before, new, hss, hresults, hnew, -⟩ := hpasses.behind fun s _ c => steps_keep r s c _
  obtain rfl : w.steps.take k = before :=
    List.append_cancel_right ((List.take_append_drop k w.steps).trans hss)
  have hlength : new.length = (w.steps.take k).length := by simpa using congrArg List.length hnew
  rw [hresults, List.length_append, hlength, List.length_take_of_le (Nat.le_of_lt hs.lt)]
  exact Nat.zero_add k

/-! ## What it can refer to -/

/-- **Between its steps a run has what its steps have told.** -/
theorem Nears.outputs_eq (hn : (Workflow.namesIn w.steps).Nodup)
    (hs : r.Nears w id inputs given began h k p) (name : String) :
    p.context.outputs.get? name = latest (Trace.told (exchanges h)) name := by
  obtain ⟨h', rfl, hpasses⟩ := hs.passed
  obtain ⟨before, new, -, hcontext, htells⟩ := hpasses.tells hn
  have hbegun : Trace.told (exchanges (begun w (.root w.name id r.hasStore) began 0 :
      History (Inquiry κ) Inquiry.Answer)) = [] := rfl
  rw [exchanges_append, Trace.told_append, hbegun, List.nil_append, htells.latest, hcontext,
    Context.get?_setOutputs_latest]
  exact Option.or_none

/-- And only of the steps taken. -/
theorem Nears.outputs_eq_none (hn : (Workflow.namesIn w.steps).Nodup)
    (hs : r.Nears w id inputs given began h k p) {name : String}
    (hname : name ∉ Workflow.namesIn (w.steps.take k)) : p.context.outputs.get? name = none := by
  obtain ⟨h', rfl, hpasses⟩ := hs.passed
  obtain ⟨before, new, hss, hcontext, htells⟩ := hpasses.tells hn
  obtain rfl : w.steps.take k = before :=
    List.append_cancel_right ((List.take_append_drop k w.steps).trans hss)
  rw [hcontext, Context.get?_setOutputs_latest, ← htells.latest, htells.latest_eq_none hname]
  rfl

/-- **The context is exactly what completed.** A run of a workflow whose steps have different names
asks before each step, and nowhere else, whether all is cancelled. When it does so, the context that it
goes on with has of every name the output that was told last when a step of this name was done, in no
run inside a step, and no output if none was. In particular, if a check reports that a step is referred
to in or inside a step of the top level before it is done, then no reference to it can be evaluated
whenever the run is about to take that step of the top level. -/
theorem run_context (r : Runner κ) (w : Workflow) (id : String) (inputs : Fields)
    (hn : (Workflow.namesIn w.steps).Nodup) :
    (∀ (h : History (Inquiry κ) Inquiry.Answer) (q : Inquiry κ)
        (next : q.Answer → RunScript κ (Except Refusal Execution)), q.site = [] →
      q.request = .isCancelled → (r.run w id inputs).Leads h (.ask q next) →
      ∃ given began k p, r.Nears w id inputs given began h k p ∧ Script.ask q next =
        r.goOn (r.execute r.levels) w given (.root w.name id r.hasStore) began (w.steps.drop k) p) ∧
    (∀ given began h k p, r.Nears w id inputs given began h k p → ∀ name,
      p.context.outputs.get? name = latest (Trace.told (exchanges h)) name) ∧
    ∀ i ∈ w.check.issues, ∀ raw name, i.problem = .unavailableStep raw name →
      ∃ k s, w.steps[k]? = some s ∧
        i ∈ treeIssues ⟨w, Workflow.namesIn (w.steps.take k)⟩ [.field "steps", .index k] s ∧
        ∀ given began h p, r.Nears w id inputs given began h k p → ∀ e : Expression,
          e.root = .stepOutput → e.rootName = name →
            e.evaluate p.context = .error ⟨e.dottedPath, .noOutput name⟩ := by
  refine ⟨fun h q next hsite hq l => run_leads_poll hsite hq l,
    fun _ _ _ _ _ hnears => hnears.outputs_eq hn, fun i hi raw name hproblem => ?_⟩
  obtain ⟨k, s, hk, hm, hname⟩ := check_unavailable hi hproblem
  exact ⟨k, s, hk, hm, fun _ _ _ _ hnears _ hroot he =>
    Expression.evaluate_of_none hroot he (hnears.outputs_eq_none hn hname)⟩

end Runner

namespace Sample

/-- A reference to the output of a step. -/
def toThird : Expression where
  raw := "$\x7b\x7b steps.third.output \x7d\x7d"
  root := .stepOutput
  path := [.field "third", .field "output"]
  negated := false

/-- A workflow whose second step refers to the third. -/
def hasty : Workflow :=
  { Workflow.empty "main" with
    steps := [{ Step.call "first" "make" with checkpoint := true },
      { Step.call "second" "make" with condition := some toThird }, Step.call "third" "make"] }

/-- The request asks at no layer whether all is cancelled. -/
def pollsNow (q : Inquiry String) : Bool :=
  match q.site, q.request with
  | [], .isCancelled => true
  | _, _ => false

/-- The run up to its checkpoint. -/
def hastened : History (Inquiry String) Inquiry.Answer × RunScript String (Except Refusal Execution) :=
  followTo answers savesNow 0 (owingRunner.run hasty "r" [])

/-- And from there to its second step. -/
def hastenedOn : History (Inquiry String) Inquiry.Answer × RunScript String (Except Refusal Execution) :=
  followTo answers pollsNow 0 hastened.2

theorem hastened_leads :
    (owingRunner.run hasty "r" []).Leads (hastened.1 ++ hastenedOn.1) hastenedOn.2 :=
  (followTo_leads _ _ _ _).trans (followTo_leads _ _ _ _)

theorem hastened_polls : ∃ q next, hastenedOn.2 = .ask q next ∧ q.site = [] ∧ q.request = .isCancelled :=
  ⟨_, _, rfl, rfl, rfl⟩

theorem hasty_reported :
    ⟨[.field "steps", .index 1, .field "when"], .unavailableStep toThird.raw "third"⟩ ∈
      hasty.check.issues :=
  List.mem_append_right _ (List.mem_append_right _ (List.mem_append_left _ List.mem_cons_self))

theorem hasty_reported_at {k : Nat} {s : Step} {problem : Problem} (hk : hasty.steps[k]? = some s)
    (h : ⟨[.field "steps", .index 1, .field "when"], problem⟩ ∈
      treeIssues ⟨hasty, Workflow.namesIn (hasty.steps.take k)⟩ [.field "steps", .index k] s) : k = 1 := by
  match k, hk with
  | 0, rfl => exact absurd h List.not_mem_nil
  | 1, _ => rfl
  | 2, rfl => exact absurd h List.not_mem_nil

/-- The layers of the first request after this one, if this one asks whether all is cancelled and
nothing is. -/
def siteAfter : RunScript String (Except Refusal Execution) → Site
  | .ask ⟨_, _, .isCancelled⟩ next =>
    match next false with
    | .ask q _ => q.site
    | _ => []
  | _ => []

theorem hastened_second {given : Fields} {scope : Scope} {began k : Nat} {p : Place}
    (hk : k < hasty.steps.length) (h : hastenedOn.2 = owingRunner.goOn
      (owingRunner.execute owingRunner.levels) hasty given scope began (hasty.steps.drop k) p) :
    p.results.length = 1 := by
  have hsite : [Layer.declared 1] = [Layer.declared p.results.length] := by
    refine (congrArg siteAfter h).trans ?_
    match k, hk with
    | 0, _ | 1, _ | 2, _ => rfl
  injection hsite with hsite
  injection hsite with hlength
  exact hlength.symm

end Sample

namespace Runner

open Sample

/-- Before its second step the run has what the first one told, and cannot refer to the third. -/
theorem run_context_hasty : ∃ (h : History (Inquiry String) Inquiry.Answer) (given : Fields)
    (began : Nat) (p : Place), (Workflow.namesIn hasty.steps).Nodup ∧
      owingRunner.Nears hasty "r" [] given began h 1 p ∧
      Trace.told (exchanges h) = [("first", .str "made")] ∧
      p.context.outputs.get? "first" = some (.str "made") ∧
      toThird.evaluate p.context = .error ⟨toThird.dottedPath, .noOutput "third"⟩ := by
  have hnames : (Workflow.namesIn hasty.steps).Nodup := by decide
  obtain ⟨hpolls, houtputs, hreported⟩ := run_context owingRunner hasty "r" [] hnames
  obtain ⟨q, next, hleft, hsite, hq⟩ := hastened_polls
  obtain ⟨given, began, k, p, hnears, hgoOn⟩ := hpolls _ q next hsite hq (hleft ▸ hastened_leads)
  obtain rfl : k = 1 := hnears.results_length.symm.trans
    (hastened_second hnears.lt (hleft.trans hgoOn))
  obtain ⟨k, s, hk, hm, hfails⟩ := hreported _ hasty_reported _ _ rfl
  obtain rfl : k = 1 := hasty_reported_at hk hm
  have hfirst : Trace.told (exchanges (hastened.1 ++ hastenedOn.1)) = [("first", .str "made")] := rfl
  refine ⟨_, given, began, p, hnames, hnears, hfirst, ?_, hfails _ _ _ _ hnears toThird rfl rfl⟩
  rw [houtputs _ _ _ _ _ hnears, hfirst]
  rfl

end Runner

end Stepflow
