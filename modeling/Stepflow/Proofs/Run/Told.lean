import Stepflow.Proofs.Run.Tries
import Stepflow.Proofs.Run.Workflow

/-!
# What is told in a trace

The events of a trace are told at sites: an event is about what is at the end of a path of layers, and
`Told` keeps both. A step tells once that it has ended, and before that once that it starts, unless it
is skipped or cancelled before; what is told inside it is told between the two (`StepTold`,
`step_told`). A try of a step tells nothing itself.
-/

namespace Stepflow

open Script

variable {κ : Type} {r : Runner κ} {c : Context} {scope : Scope} {s : Step} {t : Trace κ}
  {h : History (Inquiry κ) Inquiry.Answer} {o : StepOutcome} {site : Site}

/-! ## Events in a trace -/

/-- An event that was told, and the layers around what it is about. -/
structure Told where
  /-- The layers. -/
  site : Site
  /-- The event. -/
  event : Event

namespace Told

/-- The event, one layer further in. -/
def into (l : Layer) (e : Told) : Told := ⟨l :: e.site, e.event⟩

/-- The event is told inside what tells it, not by it. -/
def Inner (e : Told) : Prop := e.site ≠ []

/-- The event as it looks from the end of a path of layers, if it is told there. -/
def outOf? : Site → Told → Option Told
  | [], e => some e
  | l :: site, ⟨m :: rest, event⟩ => if m = l then outOf? site ⟨rest, event⟩ else none
  | _ :: _, ⟨[], _⟩ => none

theorem outOf?_eq_some {e e' : Told} :
    outOf? site e = some e' ↔ e = ⟨site ++ e'.site, e'.event⟩ := by
  induction site generalizing e with
  | nil => rw [outOf?, Option.some.injEq]; rfl
  | cons l site ih =>
    obtain ⟨_ | ⟨m, rest⟩, event⟩ := e
    · simp [outOf?]
    · rw [outOf?]
      split
      · rename_i hm
        rw [ih, hm]
        simp
      · rename_i hm
        simp [hm]

theorem outOf?_eq_none {e : Told} : outOf? site e = none ↔ ¬ site <+: e.site := by
  rw [Option.eq_none_iff_forall_ne_some]
  constructor
  · rintro h ⟨rest, heq⟩
    exact h ⟨rest, e.event⟩ (outOf?_eq_some.2 (by rw [heq]))
  · intro h e' he
    rw [outOf?_eq_some.1 he] at h
    exact h (List.prefix_append _ _)

end Told

/-- What an entry tells. -/
def Entry.event? (e : Entry κ) : Option Told :=
  match e.request.request with
  | .tell event => some ⟨e.request.site, event⟩
  | _ => none

theorem Entry.site_of_event? {e : Entry κ} {told : Told} (h : e.event? = some told) :
    told.site = e.request.site := by
  unfold event? at h
  split at h
  · injection h with h
    rw [← h]
  · contradiction

/-- The request tells nothing. -/
def Inquiry.Silent (q : Inquiry κ) : Prop := ∀ event, q.request ≠ .tell event

/-- It tells something only inside a layer. -/
def Inquiry.TellsInside (q : Inquiry κ) : Prop := q.site = [] → q.Silent

theorem Inquiry.IsWork.silent {q : Inquiry κ} (hq : q.IsWork) : q.Silent := by
  intro event hr
  cases hq <;> contradiction

theorem Inquiry.IsWork.tellsInside {q : Inquiry κ} (hq : q.IsWork) : q.TellsInside :=
  fun _ => hq.silent

/-- In a layer everything is told inside. -/
theorem asksOnly_tellsInside {α : Type} (y : RunScript κ α) (l : Layer) :
    (y.under l).AsksOnly Inquiry.TellsInside :=
  RunScript.asksOnly_under
    (asksOnly_of_forall (fun _ hsite => absurd hsite (List.cons_ne_nil _ _)) y)

namespace Trace

/-- The events that a trace tells, in order. -/
def events (t : Trace κ) : List Told := t.filterMap Entry.event?

@[simp] theorem events_append (t u : Trace κ) : events (t ++ u) = events t ++ events u :=
  List.filterMap_append

theorem events_into (t : Trace κ) (l : Layer) : (t.into l).events = t.events.map (Told.into l) := by
  rw [events, into, List.filterMap_map, events, List.map_filterMap]
  refine congrArg (List.filterMap · t) (funext fun e => ?_)
  obtain ⟨⟨site, step, request⟩, answer⟩ := e
  cases request <;> rfl

/-- **What is told at the end of a path** is what is told of it, in the same order. -/
theorem events_inside (t : Trace κ) (site : Site) :
    (t.inside site).events = t.events.filterMap (Told.outOf? site) := by
  induction site generalizing t with
  | nil => exact List.filterMap_some.symm
  | cons l site ih =>
    rw [inside, ih, events, within, List.filterMap_filterMap, List.filterMap_filterMap, events,
      List.filterMap_filterMap]
    refine congrArg (List.filterMap · t) (funext fun e => ?_)
    obtain ⟨⟨_ | ⟨m, rest⟩, step, request⟩, answer⟩ := e
    · cases request <;> rfl
    · by_cases hm : m = l
      · cases request <;> simp [Entry.outOf?, Entry.event?, Told.outOf?, hm]
      · cases request <;> simp [Entry.outOf?, Entry.event?, Told.outOf?, hm]

theorem mem_events_inside {e : Told} :
    e ∈ (t.inside site).events ↔ ⟨site ++ e.site, e.event⟩ ∈ t.events := by
  simp [events_inside, List.mem_filterMap, Told.outOf?_eq_some]

/-- What is told somewhere is told of something that happens there. -/
theorem inside_ne_nil {e : Told} (he : e ∈ t.events) (hsite : site <+: e.site) : t.inside site ≠ [] := by
  obtain ⟨entry, hentry, hsome⟩ := List.mem_filterMap.1 he
  exact inside_ne_nil_iff.2 ⟨entry, hentry, Entry.site_of_event? hsome ▸ hsite⟩

theorem events_of_silent {α : Type} {y : RunScript κ α} {a : α} (hy : y.AsksOnly Inquiry.Silent)
    (ht : y.Traces t a) : t.events = [] := by
  refine List.filterMap_eq_nil_iff.2 fun e he => ?_
  have := hy.of_traces ht e he
  unfold Entry.event?
  split
  · rename_i event hr
    exact absurd hr (this event)
  · rfl

/-- A script that tells nothing at no layer tells only what is told inside it. -/
theorem inner_of_asksOnly {α : Type} {y : RunScript κ α} {a : α}
    (hy : y.AsksOnly Inquiry.TellsInside) (ht : y.Traces t a) : ∀ e ∈ t.events, e.Inner := by
  intro e he
  obtain ⟨entry, hentry, hsome⟩ := List.mem_filterMap.1 he
  unfold Entry.event? at hsome
  split at hsome
  · rename_i event hr
    injection hsome with hsome
    subst hsome
    exact fun hsite => hy.of_traces ht entry hentry hsite event hr
  · contradiction

end Trace

namespace Runner

/-! ## Steps -/

/-- The event that a step has come to an outcome. -/
def stepEnd (scope : Scope) (o : StepOutcome) : Told := ⟨[], .stepCompleted scope.workflow o.result⟩

/-- **What a step tells**, with the outcome it gives. It tells once that it has ended, with its result,
and before that, unless it was skipped by its condition or cancelled before it started, that it starts;
all that is told inside it is told between the two. -/
inductive StepTold (c : Context) (scope : Scope) (s : Step) (t : Trace κ) (o : StepOutcome) :
    List Told → Prop
  /-- Its condition does not hold. -/
  | skipped {reason : Option String} : s.skipReason? c = some reason → o.result.status = .skipped →
      StepTold c scope s t o [stepEnd scope o]
  /-- All is cancelled before it starts. -/
  | cancelled : s.skipReason? c = none → Entry.of .isCancelled true ∈ t →
      o.result.status = .cancelled → StepTold c scope s t o [stepEnd scope o]
  /-- It starts and ends. -/
  | started {inner : List Told} : s.skipReason? c = none → (∀ e ∈ inner, e.Inner) →
      StepTold c scope s t o
        (⟨[], .stepStarted scope.workflow s.name s.type⟩ :: (inner ++ [stepEnd scope o]))

/-- The last thing that a step tells is its end. -/
theorem StepTold.ends {told : List Told} (h : StepTold c scope s t o told) :
    ∃ before, told = before ++ [stepEnd scope o] := by
  cases h with
  | skipped => exact ⟨[], rfl⟩
  | cancelled => exact ⟨[], rfl⟩
  | started => exact ⟨_ :: _, rfl⟩

/-- The end of a step tells its result. -/
theorem finish_told {began : Nat} {o' : StepOutcome}
    (u : (finish scope s began o : RunScript κ StepOutcome).Unfolds h o') :
    Trace.events (exchanges h) = [stepEnd scope o'] := by
  obtain ⟨now, d, -, rfl⟩ := finish_unfolds u
  rfl

/-- **A try of a step tells nothing itself.** -/
theorem kindOf_told {levels : Nat} {a : Attempt}
    (h : (r.kindOf (r.execute levels) c scope s.name s.kind).Traces t a) : ∀ e ∈ t.events, e.Inner := by
  have hworks : (r.kindOf (r.execute levels) c scope s.name s.kind).Works Inquiry.TellsInside := by
    refine kindOf_works (fun _ hq => hq.tellsInside)
      (fun i _ l _ => ⟨RunScript.prompt_under ?_, asksOnly_tellsInside _ _⟩)
      fun _ w inputs scope _ => ⟨RunScript.prompt_under (execute_prompt levels),
        asksOnly_tellsInside _ _⟩
    rw [plan, step_eq]
    trivial
  exact Trace.inner_of_asksOnly hworks.asks h

/-- **What every step tells.** -/
theorem step_told {levels : Nat} (h : (r.step (r.execute levels) c scope s).Traces t o) :
    StepTold c scope s t o t.events := by
  obtain ⟨h, u, rfl⟩ := h
  cases step_course u with
  | skipped hskip uend =>
    have htold := finish_told uend
    obtain ⟨now, d, rfl, -⟩ := finish_unfolds uend
    exact htold ▸ .skipped hskip rfl
  | cancelled hskip uend =>
    have htold := finish_told uend
    obtain ⟨now, d, rfl, -⟩ := finish_unfolds uend
    exact htold ▸ .cancelled hskip (by simp [pollTurn, Entry.of]) rfl
  | @tried began n a a' h k l o hskip utries ufallback uend =>
    have htries : ∀ e ∈ Trace.events (exchanges h), e.Inner := Trace.inner_of_asksOnly
      (asksOnly_retried (fun _ hq => hq.tellsInside) fun _ => asksOnly_tellsInside _ _) utries.traces
    have hfallback : ∀ e ∈ Trace.events (exchanges k), e.Inner := by
      refine Trace.inner_of_asksOnly
        (recovering_works fun f hf => ⟨RunScript.prompt_under ?_, asksOnly_tellsInside _ _⟩).asks
        ufallback.traces
      obtain ⟨i, -, rfl⟩ := Option.map_eq_some_iff.1 hf
      rw [plan, step_eq]
      trivial
    have htold : Trace.events (exchanges (h ++ (k ++ l))) =
        (Trace.events (exchanges h) ++ Trace.events (exchanges k)) ++ [stepEnd scope o] := by
      simp only [exchanges_append, Trace.events_append, finish_told uend, List.append_assoc]
    refine (?_ : StepTold c scope s _ o
      (⟨[], .stepStarted scope.workflow s.name s.type⟩ :: Trace.events (exchanges (h ++ (k ++ l)))))
    rw [htold]
    exact .started hskip fun e he => (List.mem_append.1 he).elim (htries e) (hfallback e)

end Runner

end Stepflow
