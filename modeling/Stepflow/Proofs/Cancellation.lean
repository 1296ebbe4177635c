import Stepflow.Proofs.Checkpoint.Trace
import Stepflow.Proofs.Endings
import Stepflow.Proofs.Run.Heeding
import Stepflow.Proofs.Run.Parts
import Stepflow.Proofs.Run.Tries

/-!
# Cancellation is final

A history can be divided where all is cancelled: whoever asks later is told so. From there on no step
starts, no step that a workflow declares is taken, and no fix is made, at any depth and in any member of
a group (`Final`). So a run that had a step before it then does not succeed, and one that ends cancelled
says of every step that it did not reach that it was cancelled, compensates nothing itself, and leaves
its checkpoints (`EndsCancelled`). Both hold of every run (`ran_cancelled`), since all its scripts heed
cancellation.
-/

namespace Stepflow

open Script

variable {κ : Type} {α : Type} {r : Runner κ} {w : Workflow} {c : Context} {scope : Scope} {s : Step}
  {t : Trace κ} {h k : History (Inquiry κ) Inquiry.Answer} {o : StepOutcome} {x : Execution}
  {recorded : List StepResult} {site : Site}

/-! ## After all is cancelled -/

/-- **All is cancelled between two parts of a history**: whoever asks after that is told so. It happens
in a call or a wait of the run, or anywhere else but between the answer that nothing is cancelled and what
that allows, where the run goes on at once (`RunScript.HeedsFrom.goes_on`). -/
structure CancelledBetween (h k : History (Inquiry κ) Inquiry.Answer) : Prop where
  /-- The last turn before it is not such an answer. -/
  before : ∀ e, h.getLast? = some (.asked e) → Entry.goesAhead e = false
  /-- There is no such answer after it. -/
  after : ∀ e ∈ exchanges k, Entry.goesAhead e = false

namespace RunScript

variable {begun : Site → Prop} {free : Bool} {s s' : RunScript κ α}

/-- **Once it is answered that nothing is cancelled** a script that heeds it goes on with a request: it
does not give way or wait between the answer and what that allows. -/
theorem HeedsFrom.goes_on {e : Entry κ} (hs : s.HeedsFrom begun free) (l : s.Leads h s')
    (hlast : h.getLast? = some (.asked e)) (he : Entry.goesAhead e) : s'.AsksFirst := by
  induction l generalizing begun free with
  | here => contradiction
  | @ask q next k s' x l ih =>
    cases k with
    | nil =>
      injection hlast with hlast
      injection hlast with hlast
      subst hlast
      obtain ⟨q', next', heq⟩ := ((hs.2 x).1 he).eq_ask
      rw [heq] at l
      cases l
      trivial
    | cons turn k => exact ih (hs.2 x).2 (List.getLast?_cons_cons ▸ hlast)
  | @poll deadline next k s' x l ih =>
    cases k with
    | nil =>
      injection hlast with hlast
      contradiction
    | cons turn k => exact ih (hs x) (List.getLast?_cons_cons ▸ hlast)
  | pause l ih => exact ih hs hlast
  | @sleep deadline next k s' x l ih =>
    cases k with
    | nil =>
      injection hlast with hlast
      contradiction
    | cons turn k => exact ih (hs x) (List.getLast?_cons_cons ▸ hlast)

/-- What is left of a script on the way heeds cancellation after all that has happened. -/
theorem HeedsFrom.of_leads (hs : s.HeedsFrom begun free) (l : s.Leads h s')
    (hlast : ∀ e, h.getLast? = some (.asked e) → Entry.goesAhead e = false)
    (hfree : h = [] → free = false) :
    s'.HeedsFrom (fun site => begun site ∨ Trace.inside (exchanges h) site ≠ []) false := by
  induction l generalizing begun free with
  | here s =>
    obtain rfl := hfree rfl
    exact hs.mono (fun _ => .inl) id
  | @ask q next k s' x l ih =>
    -- if the request is the last turn of all, it is not the answer that lets the script go ahead
    refine (ih (hs.2 x).2 (fun e he => hlast e (List.mem_getLast?_cons he)) fun hk => hlast _ ?_).mono
      (fun site hsite => ?_) id
    · rw [hk]
      rfl
    · rw [Trace.inside_ne_nil_iff, exchanges_asked]
      rw [Trace.inside_ne_nil_iff] at hsite
      obtain (hbegun | hhere) | ⟨e, he, hlater⟩ := hsite
      · exact .inl hbegun
      · exact .inr ⟨_, List.mem_cons_self, hhere⟩
      · exact .inr ⟨e, List.mem_cons_of_mem _ he, hlater⟩
  | poll x l ih =>
    exact ih (hs x) (fun e he => hlast e (List.mem_getLast?_cons he)) fun _ => rfl
  | pause l ih => exact ih hs hlast fun _ => rfl
  | sleep x l ih =>
    exact ih (hs x) (fun e he => hlast e (List.mem_getLast?_cons he)) fun _ => rfl

/-- **Once all is cancelled** a script that heeds it begins nothing. -/
theorem HeedsFrom.begins_nothing {a : α} (hs : s.HeedsFrom begun false) (u : s.Unfolds h a)
    (hno : ∀ e ∈ exchanges h, Entry.goesAhead e = false) :
    ∀ e ∈ exchanges h, ¬ e.request.Begins begun := by
  generalize hfree : false = free at hs
  induction u generalizing begun free with
  | done a => simp
  | @ask q next k a x u ih =>
    subst hfree
    rw [exchanges_asked] at hno ⊢
    have hfirst : ¬ q.Begins begun := fun hq => Bool.noConfusion (hs.1 hq)
    refine List.forall_mem_cons.2 ⟨hfirst, fun e he hbegins => ?_⟩
    refine ih (fun e he => hno e (List.mem_cons_of_mem _ he)) _ (hno _ List.mem_cons_self).symm
      (hs.2 x).2 e he ?_
    -- what begins nothing enters no guarded site for the first time
    refine hbegins.imp_right fun ⟨site, hg, hp, hn⟩ => ⟨site, hg, hp, ?_⟩
    rintro (hbegun | hhere)
    · exact hn hbegun
    · exact hfirst (.inr ⟨site, hg, hhere, hn⟩)
  | poll x u ih => exact ih hno _ rfl (hs x)
  | pause u ih => exact ih hno _ rfl hs
  | sleep x u ih => exact ih hno _ rfl (hs x)

/-- **So what happens after that begins nothing new.** -/
theorem Heeds.begins_nothing {a : α} (hs : s.Heeds) (u : s.Unfolds (h ++ k) a)
    (hc : CancelledBetween h k) :
    ∀ e ∈ exchanges k, ¬ e.request.Begins fun site => Trace.inside (exchanges h) site ≠ [] := by
  obtain ⟨s', l, u'⟩ := u.leads
  have hs' := HeedsFrom.of_leads hs l hc.before fun _ => rfl
  exact (hs'.mono (fun _ h => h.elim False.elim id) id).begins_nothing u' hc.after

/-- And all guarded sites where anything happens at all were begun before. -/
theorem Heeds.reached_before {a : α} (hs : s.Heeds) (u : s.Unfolds (h ++ k) a)
    (hc : CancelledBetween h k) (hg : Site.isGuarded site)
    (hne : Trace.inside (exchanges (h ++ k)) site ≠ []) : Trace.inside (exchanges h) site ≠ [] := by
  intro hnil
  rw [exchanges_append, Trace.inside_append, hnil, List.nil_append, Trace.inside_ne_nil_iff] at hne
  obtain ⟨e, he, hp⟩ := hne
  exact hs.begins_nothing u hc e he (.inr ⟨site, hg, hp, fun h => h hnil⟩)

end RunScript

/-! ## Fixes -/

namespace Trace

/-- How often a trace says, at no layer, that nothing is cancelled. -/
def goAheads (t : Trace κ) : Nat := t.own.countP Entry.goesAhead

theorem goAheads_append (t u : Trace κ) : (t ++ u).goAheads = t.goAheads + u.goAheads := by
  rw [goAheads, own_append, List.countP_append]
  rfl

@[simp] theorem goAheads_into (t : Trace κ) (l : Layer) : (t.into l).goAheads = 0 := by
  rw [goAheads, own_into]
  rfl

theorem goAheads_eq_zero (h : ∀ e ∈ t, Entry.goesAhead e = false) : t.goAheads = 0 :=
  List.countP_eq_zero.2 fun e he => by simp [h e (List.mem_filter.1 he).1]

/-- Where all is cancelled, it is so at the end of every path. -/
theorem goesAhead_inside (h : ∀ e ∈ t, Entry.goesAhead e = false) :
    ∀ e ∈ t.inside site, Entry.goesAhead e = false := by
  induction site generalizing t with
  | nil => exact h
  | cons l site ih =>
    refine ih fun e he => ?_
    rw [← Entry.goesAhead_into l]
    exact h _ (mem_within.1 he)

end Trace

/-- Calls of components ask for no leave. -/
theorem Inquiry.IsCall.goesAhead {q : Inquiry κ} (hq : q.IsCall) (x : q.Answer) :
    Entry.goesAhead ⟨q, x⟩ = false := by
  cases hq <;> rfl

namespace Runner

/-- **For every fix of a validation** the answer came that nothing is cancelled. -/
theorem Fixing.goAheads {stages : StepScript κ (Option StageFailure)} {fix : Option (Planned κ)}
    {first count : Nat} (hs : stages.run.AsksOnly Inquiry.IsCall)
    (hf : Fixing stages fix first count h) : Trace.goAheads (exchanges h) = count := by
  have hstages : ∀ {h outcome}, stages.run.Unfolds h outcome → Trace.goAheads (exchanges h) = 0 :=
    fun u => Trace.goAheads_eq_zero fun e he => (hs.of_traces u.traces e he).goesAhead e.answer
  have hfix : ∀ {number h}, FixRun fix number h → Trace.goAheads (exchanges h) = 0 := by
    intro number h hrun
    cases fix with
    | none =>
      obtain rfl : h = [] := hrun
      rfl
    | some f =>
      obtain ⟨o, u⟩ := hrun
      obtain ⟨v, -, heq⟩ := RunScript.traces_under.1 u.traces
      rw [heq, Trace.goAheads_into]
  have hpoll : ∀ {h : History (Inquiry κ) Inquiry.Answer},
      Trace.goAheads (exchanges (pollTurn false :: h)) = 1 + Trace.goAheads (exchanges h) := fun {h} =>
    Trace.goAheads_append (exchanges [pollTurn false]) (exchanges h)
  induction hf with
  | last u => exact hstages u
  | interrupted u =>
    rw [exchanges_append, Trace.goAheads_append, hstages u]
    rfl
  | broken u hrun => rw [exchanges_append, Trace.goAheads_append, hstages u, hpoll, hfix hrun]
  | again u hrun _ ih =>
    rw [exchanges_append, Trace.goAheads_append, hstages u, hpoll, exchanges_append,
      Trace.goAheads_append, hfix hrun, ih]
    omega

/-- **A try of a validation** was answered that nothing is cancelled as often as it made fixes. -/
theorem validate_fixing {execute : Execute κ} {name : String} {stages : List String}
    {retry : Nat} {fix : Option Step} {a : Attempt}
    (ht : (r.kindOf execute c scope name (.validate stages retry fix)).Traces t a) :
    ∃ count l, exchanges l = t ∧
      Fixing (r.runStages stages) (r.fallbackOf execute c scope fix) 0 count l ∧ t.goAheads = count := by
  obtain ⟨l, u, rfl⟩ := ht
  rw [kindOf] at u
  obtain ⟨count, -, hfixing, -⟩ := validating_fixing u
  refine ⟨count, l, rfl, hfixing, hfixing.goAheads ?_⟩
  exact ((RunScript.Works.compositional fun _ hq => hq).runStages r stages).asks

/-! ## Reached steps -/

section Reaches

variable {run : Context → Step → RunScript κ StepOutcome}
  {save : Step → List StepResult → RunScript κ (Except CheckpointError Unit)} {ss left : List Step}
  {p q : Place} {ending : Ending} {i : Nat}

/-- A step always does something. -/
theorem not_step_traces_nil {execute : Execute κ} : ¬ (r.step execute c scope s).Traces [] o := by
  rintro ⟨h, u, hnil⟩
  rw [step_eq] at u
  obtain ⟨began, k, -, rfl⟩ := unfolds_ask.1 u
  contradiction

theorem Takes.reaches (hrun : ∀ c s o, ¬ (run c s).Traces [] o) (ht : Takes run s p h o) :
    .declared p.results.length ∈ Trace.layers (exchanges h) := by
  obtain ⟨v, hv, heq⟩ := ht.traces
  rw [Trace.mem_layers_iff, heq]
  intro hnil
  have hv' : v = [] := Trace.within_into_self v (.declared p.results.length) ▸ hnil
  exact hrun _ _ _ (hv' ▸ hv)

/-- **A run has reached the steps that it has passed.** -/
theorem Passes.reaches (hrun : ∀ c s o, ¬ (run c s).Traces [] o)
    (hp : Passes run save ss p h left q) (hle : p.results.length ≤ i) (hlt : i < q.results.length) :
    .declared i ∈ Trace.layers (exchanges h) := by
  induction hp with
  | here => omega
  | @step s rest left p q o h k hgo _ ih =>
    rw [exchanges_append, Trace.layers_append, List.mem_append]
    obtain rfl | hne := eq_or_ne i p.results.length
    · left
      cases hgo with
      | skipped ht _ => exact ht.reaches hrun
      | saved ht _ _ =>
        rw [exchanges_append, Trace.layers_append]
        exact List.mem_append_left _ (ht.reaches hrun)
    · exact .inr (ih (by rw [Place.length_results_after]; omega) hlt)

/-- And the one with which it stops. -/
theorem Stops.reaches (hrun : ∀ c s o, ¬ (run c s).Traces [] o)
    (hs : Stops run save ss p h q ending) (hle : p.results.length ≤ i) (hlt : i < q.results.length) :
    .declared i ∈ Trace.layers (exchanges h) := by
  have hlast : ∀ {s o h}, i < (p.after o).results.length → Takes run s p h o →
      .declared i ∈ Trace.layers (exchanges h) := fun hlt ht => by
    rw [Place.length_results_after] at hlt
    obtain rfl : i = p.results.length := by omega
    exact ht.reaches hrun
  cases hs with
  | finished => omega
  | cancelledBefore s rest => omega
  | cancelled rest ht _ => exact hlast hlt ht
  | failed rest ht _ => exact hlast hlt ht
  | unsaved rest ht _ _ =>
    rw [exchanges_append, Trace.layers_append]
    exact List.mem_append_left _ (hlast hlt ht)

end Reaches

end Runner

namespace Ending.IsOf

variable {ending : Ending}

theorem eq_finished (he : ending.IsOf x) (hx : x.result.success) : ending = .finished := by
  rw [he.success] at hx
  cases ending with
  | finished => rfl
  | cancelled => contradiction
  | failed error => contradiction

theorem eq_cancelled (he : ending.IsOf x) (hx : x.result.cancelled) : ending = .cancelled := by
  rw [he.cancelled] at hx
  cases ending with
  | finished => contradiction
  | cancelled => rfl
  | failed error => contradiction

end Ending.IsOf

namespace Runner

/-- **A run has reached all steps that it has results of**, but for those taken over; if it finished,
that is all of them. -/
theorem Course.reaches {execute : Execute κ} {given : Fields}
    (hc : Course r execute w given scope recorded h x) : ∃ (ending : Ending) (p : Place),
      ending.IsOf x ∧ x.result.steps = resultsAtEnd w ending p.results ∧
      (∀ i, recorded.length ≤ i → i < p.results.length →
        .declared i ∈ Trace.layers (exchanges h)) ∧
      (ending = .finished → w.steps.length ≤ p.results.length) := by
  obtain @⟨p, q, p', left, began, ending, x, h₁, h₂, h₃, hreplay, hpasses, hstops, hends⟩ := hc
  obtain ⟨hof, hsteps⟩ := conclude_unfolds hends
  have hp : p.results.length = recorded.length := congrArg List.length (replay_names hreplay).2
  have hrun : ∀ c s o, ¬ (r.step execute c scope s).Traces [] o := fun _ _ _ => not_step_traces_nil
  refine ⟨ending, p', hof, hsteps, fun i hle hlt => ?_, fun hfinished => ?_⟩
  · simp only [exchanges_append, Trace.layers_append, List.mem_append]
    by_cases hq : i < q.results.length
    · exact .inr (.inl (hpasses.reaches hrun (by omega) hq))
    · exact .inr (.inr (.inl (hstops.reaches hrun (by omega) hlt)))
  · subst hfinished
    have hleft : w.steps.drop q.results.length = left := hpasses.drop (by rw [hp])
    cases hstops with
    | finished => exact List.drop_eq_nil_iff.1 hleft

/-- **A run that succeeds has reached every step.** -/
theorem executeFrom_reaches {execute : Execute κ} {given : Fields} {i : Nat}
    (ht : (r.executeFrom execute recorded w given scope).Traces t (.ok x)) (hx : x.result.success)
    (hle : recorded.length ≤ i) (hlt : i < w.steps.length) : .declared i ∈ t.layers := by
  obtain ⟨h, u, rfl⟩ := ht
  obtain ⟨ending, p, hof, -, hreached, hall⟩ := (executeFrom_course u).reaches
  exact hreached i hle (hlt.trans_le (hall (hof.eq_finished hx)))

end Runner

/-! ## Runs that end cancelled -/

/-- The request removes no checkpoint. -/
def Inquiry.ClearsNothing (q : Inquiry κ) : Prop := ∀ run, q.request ≠ .clear run

theorem Inquiry.allowsSteps_clearsNothing : AllowsSteps (κ := κ) Inquiry.ClearsNothing where
  work q hq := by cases hq <;> rintro _ ⟨⟩
  tell _ _ _ := by rintro _ ⟨⟩
  into _ _ hq := hq

theorem Trace.clears_of_asksOnly {s : RunScript κ α} {a : α} (hs : s.AsksOnly Inquiry.ClearsNothing)
    (ht : s.Traces t a) : t.clears = [] :=
  List.filterMap_eq_nil_iff.2 fun e he => Entry.cleared?_eq_none (hs.of_traces ht e he)

/-- **How a run leaves things that ends cancelled**, after so many results taken over. -/
structure Execution.EndsCancelled (w : Workflow) (recorded : Nat) (t : Trace κ) (x : Execution) :
    Prop where
  /-- It has one result for every step declared. -/
  names : x.result.steps.map StepResult.name = w.steps.map Step.name
  /-- A step that it did not reach is recorded as cancelled. -/
  unreached : ∀ i s, recorded ≤ i → w.steps[i]? = some s → t.within (.declared i) = [] →
    x.result.steps[i]? = some (.cancelled s)
  /-- It compensates nothing itself. -/
  compensating : t.compensating = []
  /-- And no checkpoint is removed, by itself or inside its steps. -/
  clears : t.clears = []

namespace Runner

/-- **A run on its way compensates nothing itself**, and no checkpoint is removed meanwhile. -/
theorem steps_leave {levels : Nat} {given : Fields} {ss : List Step} {p q : Place} {ending : Ending}
    (ht : (steps (fun c s => r.step (r.execute levels) c scope s) (saving w scope given) ss p).Traces t
      (q, ending)) : t.compensating = [] ∧ t.clears = [] := by
  have hb := Inquiry.allowsSteps_clearsNothing (κ := κ)
  constructor
  · obtain ⟨new, cs, e, halong⟩ := steps_along
      (fun s _ c => step_keeps (execute_keeps levels) (fun _ _ _ => execute_prompt levels) s c scope)
      (fun s results => asksOnly_saving s results) ht
    exact halong.idle
  · refine Trace.clears_of_asksOnly (asksOnly_steps (hb.work _ .isCancelled) (fun i s _ c => ?_)
      fun s results => ?_) ht
    · exact RunScript.asksOnly_under ((asksOnly_step hb (asksOnly_execute hb levels) c s).mono
        fun q => hb.into q _)
    · exact asksOnly_saving_of (by rintro _ ⟨⟩) (by rintro _ ⟨⟩) (fun _ _ => by rintro _ ⟨⟩)
        fun _ => hb.tell _ _ _

/-- At the end of a run that was cancelled nothing is settled. -/
theorem conclude_cancelled {began : Nat} {p : Place}
    (ht : (r.conclude w scope began p .cancelled).Traces t x) :
    t.compensating = [] ∧ t.clears = [] := by
  obtain ⟨u, now, totalMs, rfl, -, hsettle⟩ := conclude_settles ht
  obtain ⟨rfl, -⟩ := traces_done.1 hsettle
  exact ⟨rfl, rfl⟩

theorem Course.leaves_cancelled {levels : Nat} {given : Fields}
    (hc : Course r (r.execute levels) w given scope recorded h x) (hx : x.result.cancelled) :
    Trace.compensating (exchanges h) = [] ∧ Trace.clears (exchanges h) = [] := by
  obtain @⟨p, q, p', left, began, ending, x, h₁, h₂, h₃, hreplay, hpasses, hstops, hends⟩ := hc
  obtain rfl := (conclude_unfolds hends).1.eq_cancelled hx
  obtain ⟨hway, hway'⟩ := steps_leave (steps_unfolds.2 ⟨h₁, h₂, _, _, hpasses, hstops, rfl⟩).traces
  obtain ⟨hend, hend'⟩ := conclude_cancelled hends.traces
  rw [← List.append_assoc h₁, exchanges_append, exchanges_append, Trace.compensating_append,
    Trace.compensating_append, Trace.clears_append, Trace.clears_append, hway, hway', hend, hend']
  exact ⟨rfl, rfl⟩

/-- **Every run that ends cancelled** leaves things so. -/
theorem executeFrom_endsCancelled {levels : Nat} {given : Fields}
    (ht : (r.executeFrom (r.execute levels) recorded w given scope).Traces t (.ok x))
    (hx : x.result.cancelled) : x.EndsCancelled w recorded.length t := by
  obtain ⟨h, u, rfl⟩ := ht
  have hcourse := executeFrom_course u
  obtain ⟨ending, p, hof, hsteps, hreached, -⟩ := hcourse.reaches
  obtain rfl := hof.eq_cancelled hx
  obtain ⟨ending', well, rest, hof', -, -, hfull, -, -⟩ := hcourse.result
  obtain ⟨hcompensating, hclears⟩ := hcourse.leaves_cancelled hx
  refine ⟨hfull (by rw [← hof'.error, hof.error]; rfl), fun i s hle hs hnil => ?_, hcompensating,
    hclears⟩
  have hunreached : p.results.length ≤ i := by
    by_contra hlt
    exact Trace.within_eq_nil_iff.1 hnil (hreached i hle (by omega))
  rw [hsteps, resultsAtEnd, List.getElem?_append_right hunreached, List.getElem?_map,
    List.getElem?_drop, Nat.add_sub_cancel' hunreached, hs]
  rfl

/-! ## Every run -/

/-- **Cancellation is final**: what a run that takes over so many results and comes to `x` leaves undone,
if all is cancelled between two parts of its history. Its steps, their tries and the runs inside them are
found at their sites (`Part.inside_run`). -/
structure Final (r : Runner κ) (w : Workflow) (recorded : Nat) (x : Execution)
    (h k : History (Inquiry κ) Inquiry.Answer) : Prop where
  /-- No step tells after that that it starts. -/
  starts : ∀ e ∈ exchanges k, ¬ e.request.Starts
  /-- No step that a workflow declares and no step that fixes is reached after that, if it was not
  before. -/
  begins : ∀ site : Site, site.isGuarded → Trace.inside (exchanges (h ++ k)) site ≠ [] →
    Trace.inside (exchanges h) site ≠ []
  /-- For all fixes of a validation, whether there is a step for them or not, the answer that nothing is
  cancelled came before. -/
  fixes : ∀ site levels c scope name stages retry fix a,
    (r.kindOf (r.execute levels) c scope name (.validate stages retry fix)).Traces
      (Trace.inside (exchanges (h ++ k)) site) a →
    ∃ count l, exchanges l = Trace.inside (exchanges (h ++ k)) site ∧
      Fixing (r.runStages stages) (r.fallbackOf (r.execute levels) c scope fix) 0 count l ∧
      Trace.goAheads (Trace.inside (exchanges h) site) = count
  /-- The run does not succeed if there is a step declared that it had not reached. -/
  root : ∀ i, recorded ≤ i → i < w.steps.length → Trace.within (exchanges h) (.declared i) = [] →
    x.result.success = false
  /-- Nor does any run inside a step. -/
  nested : ∀ site levels earlier given w' scope' y,
    (r.executeFrom (r.execute levels) earlier w' given scope').Traces
      (Trace.inside (exchanges (h ++ k)) site) (.ok y) →
    ∀ i, earlier.length ≤ i → i < w'.steps.length →
      Trace.inside (exchanges h) (site ++ [.declared i]) = [] → y.result.success = false

/-- The scripts by which a workflow is run. -/
inductive IsRun (r : Runner κ) (w : Workflow) : RunScript κ (Except Refusal Execution) → Prop
  /-- Under an identifier. -/
  | run (id : String) (inputs : Fields) : IsRun r w (r.run w id inputs)
  /-- Under a fresh one. -/
  | runFresh (inputs : Fields) : IsRun r w (r.runFresh w inputs)
  /-- Inside a step. -/
  | inside (levels : Nat) (inputs : Fields) (scope : Scope) : IsRun r w (r.execute levels w inputs scope)
  /-- From a checkpoint. -/
  | resume (id : String) (inputs : Fields) : IsRun r w (r.resume w id inputs)

/-- **All of them heed cancellation.** -/
theorem IsRun.heeds {y : RunScript κ (Except Refusal Execution)} (hy : r.IsRun w y) : y.Heeds := by
  cases hy with
  | run id inputs => exact run_heeds w id inputs
  | runFresh inputs => exact runFresh_heeds w inputs
  | inside levels inputs scope => exact execute_heeds levels w inputs scope
  | resume id inputs => exact resume_heeds w id inputs

theorem Ran.isRun (hr : r.Ran w recorded h x) : ∃ y, r.IsRun w y ∧ y.Unfolds h (.ok x) := by
  cases hr with
  | run u => exact ⟨_, .run _ _, u⟩
  | runFresh u => exact ⟨_, .runFresh _, u⟩
  | inside u => exact ⟨_, .inside _ _ _, u⟩
  | resume u => exact ⟨_, .resume _ _, u⟩

/-- What is asked before a run is executed compensates nothing, and removes no checkpoint. -/
theorem Prelude.leaves (hp : Prelude h) :
    Trace.compensating (exchanges h) = [] ∧ Trace.clears (exchanges h) = [] := by
  cases hp <;> exact ⟨rfl, rfl⟩

/-- **Every run heeds cancellation to its end**: after that nothing is begun. -/
theorem Ran.final (hr : r.Ran w recorded (h ++ k) x) (hc : CancelledBetween h k) :
    r.Final w recorded.length x h k := by
  obtain ⟨s, hrun, u⟩ := hr.isRun
  have hs := hrun.heeds
  have hbefore : ∀ site : Site, site.isGuarded → Trace.inside (exchanges (h ++ k)) site ≠ [] →
      Trace.inside (exchanges h) site ≠ [] := fun site hg => hs.reached_before u hc hg
  -- a run that succeeds has reached all its steps, so it reached them before
  have hruns : ∀ site levels earlier given w' scope' y,
      (r.executeFrom (r.execute levels) earlier w' given scope').Traces
        (Trace.inside (exchanges (h ++ k)) site) (.ok y) →
      ∀ i, earlier.length ≤ i → i < w'.steps.length →
        Trace.inside (exchanges h) (site ++ [.declared i]) = [] → y.result.success = false := by
    intro site levels earlier given w' scope' y ht i hle hlt hnil
    by_contra hsuccess
    have hreached := executeFrom_reaches ht (eq_true_of_ne_false hsuccess) hle hlt
    refine hbefore (site ++ [.declared i]) ?_ ?_ hnil
    · rw [Site.isGuarded, List.getLast?_concat]
      rfl
    · rw [← Trace.inside_inside]
      exact Trace.mem_layers_iff.1 hreached
  refine ⟨fun e he hstarts => hs.begins_nothing u hc e he (.inl hstarts), hbefore, ?_, ?_, hruns⟩
  · intro site levels c scope name stages retry fix a ht
    obtain ⟨count, l, hl, hfixing, hcount⟩ := validate_fixing ht
    have hafter : Trace.goAheads (Trace.inside (exchanges k) site) = 0 :=
      Trace.goAheads_eq_zero (Trace.goesAhead_inside hc.after)
    refine ⟨count, l, hl, hfixing, ?_⟩
    rw [exchanges_append, Trace.inside_append, Trace.goAheads_append, hafter] at hcount
    exact hcount
  · intro i hle hlt hnil
    by_contra hsuccess
    obtain ⟨levels, given, scope, pre, l, heq, hpre, ul⟩ := hr.executes
    have hreached := executeFrom_reaches ul.traces (eq_true_of_ne_false hsuccess) hle hlt
    refine hbefore [.declared i] rfl ?_ hnil
    rw [heq, exchanges_append]
    exact Trace.mem_layers_iff.1 (by rw [Trace.layers_append]; exact List.mem_append_right _ hreached)

/-- **Cancellation is final.** Wherever all is cancelled in the history of a run, in a call, in a wait or
anywhere else but between the answer that nothing is cancelled and what that allows, where the run never
gives way or waits: after it no step starts and no fix is begun, at any depth and in any member of a
group, and no run that had not reached all its steps succeeds. A run that ends cancelled, and any run
inside it that does, has one result for every step declared, which is that it was cancelled if it was not
reached; it compensates nothing itself, and removes no checkpoint. -/
theorem ran_cancelled (hr : r.Ran w recorded h x) :
    (∀ y, r.IsRun w y → ∀ h₁ z, y.Leads h₁ z → ¬ z.AsksFirst →
      ∀ e, h₁.getLast? = some (.asked e) → Entry.goesAhead e = false) ∧
      (∀ h₁ h₂, h = h₁ ++ h₂ → CancelledBetween h₁ h₂ → r.Final w recorded.length x h₁ h₂) ∧
      (x.result.cancelled → x.EndsCancelled w recorded.length (exchanges h)) ∧
      ∀ levels earlier given w' scope' t y,
        (r.executeFrom (r.execute levels) earlier w' given scope').Traces t (.ok y) →
        y.result.cancelled → y.EndsCancelled w' earlier.length t := by
  refine ⟨?_, ?_, fun hx => ?_, fun _ _ _ _ _ _ _ => executeFrom_endsCancelled⟩
  · intro y hy h₁ z l hz e hlast
    exact Bool.eq_false_iff.2 fun he => hz (hy.heeds.goes_on l hlast he)
  · rintro h₁ h₂ rfl hc
    exact hr.final hc
  · obtain ⟨levels, given, scope, pre, k, rfl, hpre, u⟩ := hr.executes
    obtain ⟨hcompensating, hclears⟩ := hpre.leaves
    have hends := executeFrom_endsCancelled u.traces hx
    refine ⟨hends.names, fun i s hle hs hnil => hends.unreached i s hle hs ?_, ?_, ?_⟩
    · rw [exchanges_append, Trace.within_append] at hnil
      exact (List.append_eq_nil_iff.1 hnil).2
    · rw [exchanges_append, Trace.compensating_append, hcompensating, hends.compensating]
      rfl
    · rw [exchanges_append, Trace.clears_append, hclears, hends.clears]
      rfl

end Runner

namespace Sample

/-- Answers as before, by which all is cancelled from a turn on. -/
def calledOff (turn n : Nat) (q : Inquiry String) : q.Answer :=
  match q with
  | ⟨_, _, .isCancelled⟩ => turn ≤ n
  | q => answers n q

/-- What happens if `failing` is run and called off in the call that its nested run makes. -/
def interrupted : History (Inquiry String) Inquiry.Answer × Except Refusal Execution :=
  follow (calledOff 21) 0 (Runner.run { registry := Sample.registry } failing "1" [])

theorem interrupted_cancelled : CancelledBetween (interrupted.1.take 21) (interrupted.1.drop 21) where
  before e he := by
    have hlast : (exchanges (interrupted.1.take 21).getLast?.toList).map Entry.goesAhead = [false] := rfl
    rw [he] at hlast
    exact (List.cons.inj hlast).1
  after e he := by
    have hall : (exchanges (interrupted.1.drop 21)).all (fun e => !Entry.goesAhead e) = true := rfl
    exact Bool.not_eq_true' _ ▸ List.all_eq_true.1 hall e he

theorem interrupted_ends : ∃ x : Execution,
    (Runner.run { registry := Sample.registry } failing "1" []).Unfolds interrupted.1 (.ok x) ∧
      x.result.cancelled ∧ x.result.steps.map StepResult.status = [.passed, .passed, .cancelled] ∧
      x.compensations.map Compensation.notice = [("outer", "undo"), ("inner", "undo")] :=
  ⟨_, follow_unfolds (calledOff 21) 0 _, rfl, rfl, rfl⟩

end Sample

namespace Runner

open Sample

/-- **The run of `failing` is called off** in a call of the run inside it. The last step, which would
have failed, is not reached, and what was made stays. -/
theorem ran_cancelled_failing : ∃ (h k : History (Inquiry String) Inquiry.Answer) (x : Execution),
    Ran { registry := Sample.registry } failing [] (h ++ k) x ∧ CancelledBetween h k ∧
      Final { registry := Sample.registry } failing 0 x h k ∧
      x.EndsCancelled failing 0 (exchanges (h ++ k)) ∧
      x.result.steps.map StepResult.status = [.passed, .passed, .cancelled] ∧
      x.compensations.map Compensation.notice = [("outer", "undo"), ("inner", "undo")] := by
  obtain ⟨x, hu, hcancelled, hstatus, howed⟩ := interrupted_ends
  have hr : Ran { registry := Sample.registry } failing []
      (interrupted.1.take 21 ++ interrupted.1.drop 21) x := by
    rw [List.take_append_drop]
    exact .run hu
  obtain ⟨-, hfinal, hends, -⟩ := ran_cancelled hr
  exact ⟨_, _, x, hr, interrupted_cancelled, hfinal _ _ rfl interrupted_cancelled, hends hcancelled,
    hstatus, howed⟩

end Runner

end Stepflow
