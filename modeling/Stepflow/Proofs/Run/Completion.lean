import Stepflow.Proofs.Run.Trace
import Stepflow.Run.Effects

/-!
# Completions and compensations in a trace

What the events of a trace say about compensation, without a look at what a run keeps for itself. A
completion is a step that passed or was fixed, at its site. A run failed if it told so, and a
completion is settled once some run around it failed. `Trace.Settles` says what a run that failed must
have done about the completions in it that no failed run inside it had settled before: it compensated
them one by one, the last first, whatever became of each compensation.

Completions are put in the order of their sites: declared steps, tries, fixes and members by number,
the fallback after the tries, and inner steps before the step around them. Where no steps run side by
side that is the order in which they completed.
-/

namespace Stepflow

open Script

variable {κ : Type}

/-! ## The order of sites -/

namespace Layer

/-- Whether all that is in one layer comes before all that is in another beside it. -/
def Before : Layer → Layer → Prop
  | .declared m, .declared n => m < n
  | .attempt m, .attempt n => m < n
  | .attempt _, .fallback => True
  | .fix m, .fix n => m < n
  | .member m, .member n => m < n
  | _, _ => False

instance (l m : Layer) : Decidable (l.Before m) := by
  cases l <;> cases m <;>
    first
    | exact inferInstanceAs (Decidable (_ < _))
    | exact .isTrue trivial
    | exact .isFalse id

/-- No layer comes before itself. -/
theorem Before.ne {l m : Layer} (h : l.Before m) : l ≠ m := by
  rintro rfl
  cases l <;> simp [Before] at h

theorem Before.asymm {l m : Layer} (h : l.Before m) : ¬ m.Before l := by
  intro h'
  cases l <;> cases m <;> simp only [Before] at h h' <;> omega

end Layer

namespace Site

/-- Whether one site comes before another. -/
def Before : Site → Site → Prop
  | _ :: _, [] => True
  | [], _ => False
  | l :: site, m :: other => l.Before m ∨ l = m ∧ Before site other

instance decidableBefore : (site other : Site) → Decidable (Before site other)
  | [], _ => .isFalse (by simp [Before])
  | _ :: _, [] => .isTrue trivial
  | l :: site, m :: other =>
    have : Decidable (Before site other) := decidableBefore site other
    inferInstanceAs (Decidable (l.Before m ∨ l = m ∧ Before site other))

@[simp] theorem before_cons_cons (l : Layer) (site other : Site) :
    Before (l :: site) (l :: other) ↔ Before site other := by
  rw [Before]
  exact ⟨fun h => h.elim (fun h => (h.ne rfl).elim) And.right, fun h => .inr ⟨rfl, h⟩⟩

/-- Of two sites at most one comes before the other. -/
theorem Before.asymm {site other : Site} (h : Before site other) : ¬ Before other site := by
  induction site generalizing other with
  | nil =>
    rw [Before] at h
    contradiction
  | cons l site ih =>
    cases other with
    | nil => exact id
    | cons m other =>
      obtain h | ⟨rfl, h⟩ := h
      · rintro (h' | ⟨rfl, -⟩)
        · exact h.asymm h'
        · exact h.ne rfl
      · rw [before_cons_cons]
        exact ih h

/-- No step of a run inside a step is between this site and the run. -/
def isOwn (site : Site) : Bool := !site.contains .run

@[simp] theorem isOwn_nil : isOwn [] = true := rfl

theorem isOwn_cons {l : Layer} (hl : l ≠ .run) (site : Site) : isOwn (l :: site) = isOwn site := by
  simp [isOwn, Ne.symm hl]

@[simp] theorem isOwn_run (site : Site) : isOwn (.run :: site) = false := by
  simp [isOwn]

end Site

/-! ## Completions -/

/-- The completion of a step that passed or was fixed. -/
structure Completion where
  /-- The layers around the step. -/
  site : Site
  /-- The step. -/
  step : Step
  /-- What it produced. -/
  output : Value

namespace Completion

/-- The completion, one layer further in. -/
def into (l : Layer) (c : Completion) : Completion := { c with site := l :: c.site }

/-- The output under the name of the step. -/
def entry (c : Completion) : String × Value := (c.step.name, c.output)

/-- The compensation that is owed for the completion, if the step has one. -/
def owed (c : Completion) : List Compensation :=
  c.step.rollback.toList.map fun action => ⟨c.step.name, action, c.output⟩

@[simp] theorem entry_into (l : Layer) (c : Completion) : (c.into l).entry = c.entry := rfl

@[simp] theorem owed_into (l : Layer) (c : Completion) : (c.into l).owed = c.owed := rfl

@[simp] theorem site_into (l : Layer) (c : Completion) : (c.into l).site = l :: c.site := rfl

end Completion

/-- The compensations that are owed for completions. -/
def owedFor (cs : List Completion) : List Compensation := cs.flatMap Completion.owed

@[simp] theorem owedFor_append (cs ds : List Completion) :
    owedFor (cs ++ ds) = owedFor cs ++ owedFor ds := List.flatMap_append

@[simp] theorem owedFor_into (l : Layer) (cs : List Completion) :
    owedFor (cs.map (Completion.into l)) = owedFor cs := by
  simp [owedFor, List.flatMap_map]

/-- What the start of a compensation says of it. -/
def Compensation.notice (c : Compensation) : String × String := (c.step, c.action)

/-- Whether a request can belong to a compensation, if a run makes it at its own site. -/
def Request.isCompensating : Request κ → Bool
  | .tell (.rollbackStarted ..) | .tell (.rollbackCompleted ..) | .begin .. | .collect _ | .defer _ =>
    true
  | _ => false

namespace Entry

/-- The completion that an entry tells. -/
def completion? (e : Entry κ) : Option Completion :=
  match e.request with
  | ⟨site, some s, .tell (.stepCompleted _ result)⟩ =>
    if result.status.isDone then some ⟨site, s, result.output⟩ else none
  | _ => none

/-- Whether an entry tells that a step has ended and is not done. -/
def isUndone (e : Entry κ) : Bool :=
  match e.request with
  | ⟨_, some _, .tell (.stepCompleted _ result)⟩ => !result.status.isDone
  | _ => false

/-- The name of the workflow that an entry tells to have failed. -/
def failure? (e : Entry κ) : Option String :=
  match e.request.request with
  | .tell (.workflowCompleted workflow _ false false _) => some workflow
  | _ => none

/-- The step and the action of a compensation that an entry tells to have started. -/
def rollback? (e : Entry κ) : Option (String × String) :=
  match e.request.request with
  | .tell (.rollbackStarted _ step action) => some (step, action)
  | _ => none

theorem completion?_into (l : Layer) (e : Entry κ) :
    (e.into l).completion? = e.completion?.map (Completion.into l) := by
  obtain ⟨⟨site, step, request⟩, answer⟩ := e
  rcases step with _ | s
  · rfl
  cases request with
  | tell ev =>
    cases ev with
    | stepCompleted workflow result =>
      simp only [completion?, into, Inquiry.into]
      split <;> rfl
    | _ => rfl
  | _ => rfl

@[simp] theorem rollback?_into (l : Layer) (e : Entry κ) : (e.into l).rollback? = e.rollback? := rfl

/-- A completion is at the site of its entry. -/
theorem site_of_completion? {e : Entry κ} {c : Completion} (h : e.completion? = some c) :
    c.site = e.request.site := by
  obtain ⟨⟨site, step, request⟩, answer⟩ := e
  simp only [completion?] at h
  split at h
  · rename_i heq
    split at h
    · injection h with h
      injection heq with hsite
      rw [← h, hsite]
    · contradiction
  · contradiction

end Entry

namespace Trace

/-- The completions that a trace tells. -/
def completions (t : Trace κ) : List Completion := t.filterMap Entry.completion?

/-- The compensations that a trace tells to have started: step and action. -/
def rollbacks (t : Trace κ) : List (String × String) := t.filterMap Entry.rollback?

/-- What a run did to compensate, at its own site. -/
def compensating (t : Trace κ) : Trace κ := t.own.filter fun e => e.request.request.isCompensating

/-- The name of the workflow, if this is the trace of a run that failed. -/
def failure? (t : Trace κ) : Option String := t.own.findSome? Entry.failure?

/-- Whether this is the trace of a step that ended and is not done. -/
def undone (t : Trace κ) : Bool := t.own.any Entry.isUndone

/-- **Whether what is at a site is settled**: some run around it failed. -/
def settled (t : Trace κ) : Site → Bool
  | [] => t.failure?.isSome
  | l :: site => t.failure?.isSome || (t.within l).settled site

/-- Whether what is at a site is settled by a run further in than the whole trace. -/
def settledInside (t : Trace κ) : Site → Bool
  | [] => false
  | l :: site => (t.within l).settled site

theorem settled_eq (t : Trace κ) (site : Site) :
    t.settled site = (t.failure?.isSome || t.settledInside site) := by
  cases site with
  | nil => simp [settled, settledInside]
  | cons l site => rfl

/-- The completions of a trace, in the order of their sites. -/
structure Lists (t : Trace κ) (cs : List Completion) : Prop where
  /-- They are all. -/
  perm : cs.Perm t.completions
  /-- They are in order. -/
  ordered : cs.Pairwise fun c d => c.site.Before d.site

/-- **There is one such list**, so the order of the compensations is determined. -/
theorem Lists.eq {t : Trace κ} {cs ds : List Completion} (hc : t.Lists cs) (hd : t.Lists ds) :
    cs = ds :=
  (hc.perm.trans hd.perm.symm).eq_of_pairwise
    (fun _ _ _ _ h h' => absurd h' h.asymm) hc.ordered hd.ordered

/-- The completions that wait for a run to settle them: no run inside it has. -/
def pending (t : Trace κ) (cs : List Completion) : List Completion :=
  cs.filter fun c => !t.settledInside c.site

end Trace

/-! ## Compensations -/

/-- A request answered at no layer. -/
def Entry.of (request : Request κ) (answer : request.Answer) : Entry κ := ⟨{ request }, answer⟩

namespace Runner

/-- What is exchanged to call the callable of a compensation, and the error it comes to: the callable
is handed the output if it is registered, else a lenient registry records the name. -/
def Invokes (r : Runner κ) (c : Compensation) (t : Trace κ) (error : Option String) : Prop :=
  match r.registry.resolve .callables c.action with
  | .found component => ∃ (call : Call) (reply : Except String Reply),
    t = [.of (.begin .callables c.action component (.arguments [] [("output", c.output)])) call,
      .of (.collect call.ticket) reply] ∧
    error = match reply with | .ok _ => none | .error message => some message
  | .standIn e => t = [.of (.defer e) ()] ∧
    error = some (Registry.standInMessage .callables c.action)
  | .missing e => t = [] ∧ error = some e.message

/-- **What a run exchanges to compensate steps**, in the order given: each compensation starts, is
called and ends, with an error or without, and the next one follows in any case. -/
inductive Compensates (r : Runner κ) (workflow : String) : List Compensation → Trace κ → Prop
  | nil : Compensates r workflow [] []
  | cons {c : Compensation} {rest : List Compensation} {t u : Trace κ} {error : Option String} :
      r.Invokes c t error → Compensates r workflow rest u →
      Compensates r workflow (c :: rest)
        (.of (.tell (.rollbackStarted workflow c.step c.action)) () ::
          (t ++ .of (.tell (.rollbackCompleted workflow c.step error)) () :: u))

end Runner

/-- **What a run does about the compensations that are owed.** One that failed compensates all that no
failed run inside it has, the last first; any other starts no compensation. -/
def Trace.Settles (r : Runner κ) (t : Trace κ) : Prop :=
  match t.failure? with
  | none => t.own.rollbacks = []
  | some workflow => ∃ cs, t.Lists cs ∧
    r.Compensates workflow (owedFor (t.pending cs)).reverse t.compensating

/-! ## Traces that tell nothing of account -/

/-- Whether an event has a part in what is owed. -/
def Event.counts : Event → Bool
  | .stepCompleted .. | .workflowCompleted .. | .rollbackStarted .. => true
  | .workflowStarted .. | .stepStarted .. | .checkpointSaved .. | .rollbackCompleted .. => false

/-- The request tells no event that has a part in what is owed. -/
def Inquiry.Calm (q : Inquiry κ) : Prop := ∀ e, q.request = .tell e → e.counts = false

namespace Entry

variable {e : Entry κ}

theorem completion?_of_calm (h : e.request.Calm) : e.completion? = none := by
  obtain ⟨⟨site, step, request⟩, answer⟩ := e
  unfold completion?
  split
  · rename_i heq
    injection heq with _ _ hr
    simp [Inquiry.Calm, hr, Event.counts] at h
  · rfl

theorem isUndone_of_calm (h : e.request.Calm) : e.isUndone = false := by
  obtain ⟨⟨site, step, request⟩, answer⟩ := e
  unfold isUndone
  split
  · rename_i heq
    injection heq with _ _ hr
    simp [Inquiry.Calm, hr, Event.counts] at h
  · rfl

theorem failure?_of_calm (h : e.request.Calm) : e.failure? = none := by
  unfold failure?
  split
  · rename_i hr
    simp [Inquiry.Calm, hr, Event.counts] at h
  · rfl

theorem rollback?_of_calm (h : e.request.Calm) : e.rollback? = none := by
  unfold rollback?
  split
  · rename_i hr
    simp [Inquiry.Calm, hr, Event.counts] at h
  · rfl

end Entry

namespace Trace

/-- **At its own site the trace tells nothing that has a part in what is owed.** -/
def Calm (t : Trace κ) : Prop := ∀ e ∈ t.own, e.request.Calm

variable {t u v : Trace κ}

theorem calm_nil : Calm ([] : Trace κ) := by simp [Calm, own]

@[simp] theorem calm_into (t : Trace κ) (l : Layer) : (t.into l).Calm := by simp [Calm]

/-- A script whose own requests are calm has calm traces. -/
theorem calm_of_asksOnly {α : Type} {s : RunScript κ α} {a : α}
    (hs : s.AsksOnly fun q => q.site = [] → q.Calm) (ht : s.Traces t a) : t.Calm := by
  intro e he
  rw [own, List.mem_filter, List.isEmpty_iff] at he
  exact hs.of_traces ht e he.1 he.2

namespace Calm

theorem interleaving (ht : t.Calm) (hu : u.Calm) (h : Interleaving t u v) : v.Calm := by
  intro e he
  rw [own, List.mem_filter] at he
  obtain hm | hm := h.mem_iff.1 he.1
  · exact ht e (List.mem_filter.2 ⟨hm, he.2⟩)
  · exact hu e (List.mem_filter.2 ⟨hm, he.2⟩)

theorem append (ht : t.Calm) (hu : u.Calm) : (t ++ u).Calm := ht.interleaving hu (.append t u)

theorem failure?_eq_none (h : t.Calm) : t.failure? = none := by
  rw [failure?, List.findSome?_eq_none_iff]
  exact fun e he => Entry.failure?_of_calm (h e he)

theorem undone_eq_false (h : t.Calm) : t.undone = false := by
  rw [undone, List.any_eq_false]
  exact fun e he => by simp [Entry.isUndone_of_calm (h e he)]

theorem own_rollbacks (h : t.Calm) : t.own.rollbacks = [] := by
  rw [rollbacks, List.filterMap_eq_nil_iff]
  exact fun e he => Entry.rollback?_of_calm (h e he)

/-- Every completion in a calm trace is further in, in one of its layers. -/
theorem site_of_mem (h : t.Calm) {c : Completion} (hc : c ∈ t.completions) :
    ∃ l site, c.site = l :: site ∧ l ∈ t.layers := by
  obtain ⟨e, he, hec⟩ := List.mem_filterMap.1 hc
  have hsite := Entry.site_of_completion? hec
  cases hs : c.site with
  | nil =>
    -- an entry at no layer would be calm and tell no completion
    have hown : e ∈ t.own := List.mem_filter.2 ⟨he, by rw [← hsite, hs]; rfl⟩
    rw [Entry.completion?_of_calm (h e hown)] at hec
    contradiction
  | cons l site =>
    exact ⟨l, site, rfl, List.mem_filterMap.2 ⟨e, he, by rw [← hsite, hs]; rfl⟩⟩

theorem settles {r : Runner κ} (h : t.Calm) : t.Settles r := by
  rw [Settles, h.failure?_eq_none]
  exact h.own_rollbacks

end Calm

@[simp] theorem completions_nil : completions ([] : Trace κ) = [] := rfl

@[simp] theorem rollbacks_nil : rollbacks ([] : Trace κ) = [] := rfl

@[simp] theorem completions_append (t u : Trace κ) :
    completions (t ++ u) = completions t ++ completions u := List.filterMap_append

@[simp] theorem rollbacks_append (t u : Trace κ) :
    rollbacks (t ++ u) = rollbacks t ++ rollbacks u := List.filterMap_append

theorem completions_into (t : Trace κ) (l : Layer) :
    (t.into l).completions = t.completions.map (Completion.into l) := by
  rw [completions, into, List.filterMap_map, completions, List.map_filterMap]
  exact congrArg (List.filterMap · t) (funext (Entry.completion?_into l))

@[simp] theorem rollbacks_into (t : Trace κ) (l : Layer) : (t.into l).rollbacks = t.rollbacks := by
  rw [rollbacks, into, List.filterMap_map]
  rfl

end Trace

end Stepflow
