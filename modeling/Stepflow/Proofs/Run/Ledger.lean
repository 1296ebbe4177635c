import Stepflow.Proofs.Run.Completion

/-!
# The ledger of a trace

`Ledger r t cs owed` ties a trace to what a script holds to be owed when it has made the trace: the
completions are `cs`, in order; wherever in the trace a run failed, it settled what it owed, and there
was no compensation besides; and `owed` is what is left, the compensations of the completions that are
not settled.

A ledger is carried from the parts of a run to the whole. Traces whose layers come before one another
are joined (`Ledger.join`), a trace moves one layer further in (`Ledger.into`), a step is completed
(`Ledger.complete`), and a run ends (`Ledger.failed`, `Ledger.unfailed`). Nothing is lost or counted
twice on the way, since the layers of the parts are different.
-/

namespace Stepflow

open Script

variable {κ : Type} {r : Runner κ} {t u v : Trace κ} {cs ds : List Completion}
  {owed owed' : List Compensation}

/-- The third trace is put together from the first two, of which one comes before the other. -/
structure Trace.Joins (t u v : Trace κ) : Prop where
  /-- The first tells nothing of account at its own site. -/
  calm_left : t.Calm
  /-- Nor does the second. -/
  calm_right : u.Calm
  /-- Each is in the whole, in its order. -/
  interleaving : Interleaving t u v
  /-- The layers of the first come before those of the second. -/
  before : ∀ l ∈ t.layers, ∀ m ∈ u.layers, l.Before m

namespace Trace.Joins

/-- One trace after the other. -/
theorem append (ht : t.Calm) (hu : u.Calm) (h : ∀ l ∈ t.layers, ∀ m ∈ u.layers, l.Before m) :
    Joins t u (t ++ u) := ⟨ht, hu, .append t u, h⟩

theorem calm (h : Joins t u v) : v.Calm := h.calm_left.interleaving h.calm_right h.interleaving

theorem not_mem_right (h : Joins t u v) {l : Layer} (hl : l ∈ t.layers) : l ∉ u.layers :=
  fun hm => (h.before l hl l hm).ne rfl

theorem not_mem_left (h : Joins t u v) {l : Layer} (hl : l ∈ u.layers) : l ∉ t.layers :=
  fun hm => (h.before l hm l hl).ne rfl

/-- **What is inside a layer** of the whole is inside it in one of the two. -/
theorem within (h : Joins t u v) (l : Layer) : v.within l = t.within l ∨ v.within l = u.within l := by
  by_cases hl : l ∈ t.layers
  · exact .inl (h.interleaving.within_left (h.not_mem_right hl))
  · exact .inr (h.interleaving.within_right hl)

theorem settled_left (h : Joins t u v) {l : Layer} (hl : l ∈ t.layers) (site : Site) :
    v.settled (l :: site) = t.settled (l :: site) := by
  rw [Trace.settled, Trace.settled, h.calm.failure?_eq_none, h.calm_left.failure?_eq_none,
    h.interleaving.within_left (h.not_mem_right hl)]

theorem settled_right (h : Joins t u v) {l : Layer} (hl : l ∈ u.layers) (site : Site) :
    v.settled (l :: site) = u.settled (l :: site) := by
  rw [Trace.settled, Trace.settled, h.calm.failure?_eq_none, h.calm_right.failure?_eq_none,
    h.interleaving.within_right (h.not_mem_left hl)]

end Trace.Joins

namespace Trace.Lists

/-- The completions of a calm trace are in its layers. -/
theorem site_of_mem (h : t.Lists cs) (hc : t.Calm) {c : Completion} (hm : c ∈ cs) :
    ∃ l site, c.site = l :: site ∧ l ∈ t.layers := hc.site_of_mem (h.perm.mem_iff.1 hm)

theorem join (ht : t.Lists cs) (hu : u.Lists ds) (h : Joins t u v) : v.Lists (cs ++ ds) where
  perm := by
    refine (ht.perm.append hu.perm).trans ?_
    exact (h.interleaving.filterMap Entry.completion?).perm.symm
  ordered := by
    refine List.pairwise_append.2 ⟨ht.ordered, hu.ordered, fun c hc d hd => ?_⟩
    obtain ⟨l, site, hl, hlt⟩ := ht.site_of_mem h.calm_left hc
    obtain ⟨m, other, hm, hmu⟩ := hu.site_of_mem h.calm_right hd
    rw [hl, hm]
    exact .inl (h.before l hlt m hmu)

theorem into (ht : t.Lists cs) (l : Layer) : (t.into l).Lists (cs.map (Completion.into l)) where
  perm := by
    rw [completions_into]
    exact ht.perm.map _
  ordered := by
    rw [List.pairwise_map]
    exact ht.ordered.imp fun h => by simpa using h

/-- What a calm trace without layers completes is nothing. -/
theorem nil (hc : t.Calm) (hl : t.layers = []) : t.Lists [] where
  perm := by
    rw [List.nil_perm, List.eq_nil_iff_forall_not_mem]
    intro c hm
    obtain ⟨l, _, _, h⟩ := hc.site_of_mem hm
    rw [hl] at h
    exact List.not_mem_nil h
  ordered := .nil

end Trace.Lists

/-- **What is owed after a trace.** -/
structure Ledger (r : Runner κ) (t : Trace κ) (cs : List Completion) (owed : List Compensation) :
    Prop where
  /-- The completions are all, in order. -/
  lists : t.Lists cs
  /-- Every run in the trace settled what it had to. -/
  settles : ∀ site, (t.inside site).Settles r
  /-- The compensations that were started are those of the settled completions, each once. -/
  rollbacks : t.rollbacks.Perm
    ((owedFor (cs.filter fun c => t.settled c.site)).map Compensation.notice)
  /-- The others are still owed. -/
  owed_eq : owed = owedFor (cs.filter fun c => !t.settled c.site)

namespace Ledger

/-- Where nothing happened nothing is owed. -/
theorem nil (hc : t.Calm) (hl : t.layers = []) : Ledger r t [] [] where
  lists := .nil hc hl
  settles
    | [] => hc.settles
    | l :: site => by
      have h : t.within l = [] := Trace.within_eq_nil_iff.2 (by simp [hl])
      have hsite : ∀ site : Site, Trace.inside ([] : Trace κ) site = [] := fun site => by
        induction site with
        | nil => rfl
        | cons m site ih => exact ih
      rw [Trace.inside, h, hsite]
      exact Trace.calm_nil.settles
  rollbacks := by
    rw [← Trace.own_eq_self hl, hc.own_rollbacks]
    rfl
  owed_eq := rfl

/-- **Two traces joined** owe what the one owes and then what the other owes. -/
theorem join (ht : Ledger r t cs owed) (hu : Ledger r u ds owed') (h : t.Joins u v) :
    Ledger r v (cs ++ ds) (owed ++ owed') := by
  -- whether a completion is settled is decided inside its first layer, which is in one of the two
  have hcs : ∀ c ∈ cs, v.settled c.site = t.settled c.site := fun c hc => by
    obtain ⟨l, site, hl, hlt⟩ := ht.lists.site_of_mem h.calm_left hc
    rw [hl, h.settled_left hlt]
  have hds : ∀ d ∈ ds, v.settled d.site = u.settled d.site := fun d hd => by
    obtain ⟨m, site, hm, hmu⟩ := hu.lists.site_of_mem h.calm_right hd
    rw [hm, h.settled_right hmu]
  have hsettled : (cs ++ ds).filter (fun c => v.settled c.site) =
      cs.filter (fun c => t.settled c.site) ++ ds.filter (fun c => u.settled c.site) := by
    rw [List.filter_append, List.filter_congr hcs, List.filter_congr hds]
  refine ⟨ht.lists.join hu.lists h, ?_, ?_, ?_⟩
  · rintro (_ | ⟨l, site⟩)
    · exact h.calm.settles
    · obtain hl | hl := h.within l
      · simpa only [Trace.inside, hl] using ht.settles (l :: site)
      · simpa only [Trace.inside, hl] using hu.settles (l :: site)
  · rw [hsettled, owedFor_append, List.map_append]
    exact (h.interleaving.filterMap Entry.rollback?).perm.trans (ht.rollbacks.append hu.rollbacks)
  · rw [ht.owed_eq, hu.owed_eq, ← owedFor_append, List.filter_append,
      List.filter_congr fun c hc => congrArg not (hcs c hc),
      List.filter_congr fun d hd => congrArg not (hds d hd)]

theorem settled_into (t : Trace κ) (l : Layer) (site : Site) :
    (t.into l).settled (l :: site) = t.settled site := by
  simp [Trace.settled, (Trace.calm_into t l).failure?_eq_none]

/-- **One layer further in** all that is owed stays so. -/
theorem into (ht : Ledger r t cs owed) (l : Layer) :
    Ledger r (t.into l) (cs.map (Completion.into l)) owed := by
  refine ⟨ht.lists.into l, ?_, ?_, ?_⟩
  · rintro (_ | ⟨m, site⟩)
    · exact (Trace.calm_into t l).settles
    · rw [Trace.inside, Trace.within_into]
      split
      · exact ht.settles site
      · exact (nil (r := r) Trace.calm_nil rfl).settles site
  · rw [Trace.rollbacks_into, List.filter_map, owedFor_into]
    simpa only [Function.comp_def, Completion.site_into, settled_into] using ht.rollbacks
  · rw [List.filter_map, owedFor_into]
    simpa only [Function.comp_def, Completion.site_into, settled_into] using ht.owed_eq

end Ledger

/-! ## The end of a step -/

/-- An entry that tells, at no layer, what a step came to. -/
def Entry.ofCompleted (workflow : String) (s : Step) (result : StepResult) : Entry κ :=
  ⟨{ step := some s, request := .tell (.stepCompleted workflow result) }, ()⟩

namespace Trace

/-- The trace of a step and then its end. -/
def completing (t : Trace κ) (workflow : String) (s : Step) (result : StepResult) : Trace κ :=
  t ++ [.ofCompleted workflow s result]

variable {workflow : String} {s : Step} {result : StepResult}

/-- After the end of a step no layer is different. -/
theorem within_completed (l : Layer) :
    (t.completing workflow s result).within l = t.within l := by
  rw [completing, within_append]
  exact List.append_nil _

theorem failure?_completed (hc : t.Calm) :
    (t.completing workflow s result).failure? = none := by
  rw [failure?, completing, own_append, List.findSome?_append]
  exact Option.or_eq_none_iff.2 ⟨hc.failure?_eq_none, rfl⟩

theorem settled_completed (hc : t.Calm) (site : Site) :
    (t.completing workflow s result).settled site = t.settled site := by
  cases site with
  | nil => rw [settled, settled, failure?_completed hc, hc.failure?_eq_none]
  | cons l site =>
    rw [settled, settled, failure?_completed hc, hc.failure?_eq_none, within_completed]

theorem rollbacks_completed :
    (t.completing workflow s result).rollbacks = t.rollbacks := by
  rw [completing, rollbacks_append]
  exact List.append_nil _

theorem settles_completed (hc : t.Calm) (h : ∀ site, (t.inside site).Settles r) (site : Site) :
    ((t.completing workflow s result).inside site).Settles r := by
  cases site with
  | nil =>
    rw [inside, Settles, failure?_completed hc]
    show (own _).rollbacks = []
    rw [completing, own_append, rollbacks_append, hc.own_rollbacks]
    rfl
  | cons l site =>
    rw [inside, within_completed]
    exact h (l :: site)

end Trace

namespace Ledger

variable {workflow : String} {s : Step} {result : StepResult}

/-- **A step that is done** is owed its compensation besides those of the steps inside it. -/
theorem complete (ht : Ledger r t cs owed) (hc : t.Calm) (hdone : result.status.isDone) :
    Ledger r (t.completing workflow s result) (cs ++ [⟨[], s, result.output⟩])
      (owed ++ (Effects.ofCompleted s result.output).compensations) := by
  have hself : t.settled [] = false := by rw [Trace.settled, hc.failure?_eq_none]; rfl
  refine ⟨⟨?_, ?_⟩, Trace.settles_completed hc ht.settles, ?_, ?_⟩
  · rw [Trace.completing, Trace.completions_append]
    refine ht.lists.perm.append (.of_eq ?_)
    simp [Trace.completions, Entry.completion?, Entry.ofCompleted, hdone]
  · refine List.pairwise_append.2 ⟨ht.lists.ordered, List.pairwise_singleton _ _, fun c hm d hd => ?_⟩
    obtain ⟨l, site, hl, _⟩ := ht.lists.site_of_mem hc hm
    rw [hl, List.eq_of_mem_singleton hd]
    trivial
  · rw [Trace.rollbacks_completed]
    simpa [Trace.settled_completed hc, hself] using ht.rollbacks
  · rw [ht.owed_eq]
    simp [Trace.settled_completed hc, hself, owedFor, Completion.owed, Effects.ofCompleted]

/-- A step that is not done is owed only those. -/
theorem giveUp (ht : Ledger r t cs owed) (hc : t.Calm) (hdone : result.status.isDone = false) :
    Ledger r (t.completing workflow s result) cs owed := by
  refine ⟨⟨?_, ht.lists.ordered⟩, Trace.settles_completed hc ht.settles, ?_, ?_⟩
  · rw [Trace.completing, Trace.completions_append]
    simpa [Trace.completions, Entry.completion?, Entry.ofCompleted, hdone] using ht.lists.perm
  · rw [Trace.rollbacks_completed]
    simpa only [Trace.settled_completed hc] using ht.rollbacks
  · simpa only [Trace.settled_completed hc] using ht.owed_eq

end Ledger

/-! ## The end of a run -/

/-- The second trace is that of a run whose steps made the first one. -/
structure Trace.Ends (t v : Trace κ) : Prop where
  /-- The steps tell nothing of account at the site of the run. -/
  calm : t.Calm
  /-- The run adds nothing to any layer. -/
  within : ∀ l, v.within l = t.within l
  /-- It completes nothing besides. -/
  completions : v.completions = t.completions

namespace Ledger

theorem settledInside_of_ends (h : t.Ends v) (site : Site) :
    v.settledInside site = t.settled site := by
  cases site with
  | nil => rw [Trace.settledInside, Trace.settled, h.calm.failure?_eq_none]; rfl
  | cons l site =>
    rw [Trace.settledInside, Trace.settled, h.calm.failure?_eq_none, h.within]
    rfl

/-- **A run that did not fail** owes what its steps left to it. -/
theorem unfailed (ht : Ledger r t cs owed) (h : t.Ends v) (hf : v.failure? = none)
    (hr : v.own.rollbacks = []) (hall : v.rollbacks = t.rollbacks) : Ledger r v cs owed := by
  have hsettled : ∀ site, v.settled site = t.settled site := fun site => by
    rw [Trace.settled_eq, hf, settledInside_of_ends h]
    rfl
  refine ⟨⟨h.completions ▸ ht.lists.perm, ht.lists.ordered⟩, ?_, ?_, ?_⟩
  · rintro (_ | ⟨l, site⟩)
    · rw [Trace.inside, Trace.Settles, hf]
      exact hr
    · rw [Trace.inside, h.within]
      exact ht.settles (l :: site)
  · rw [hall]
    simpa only [hsettled] using ht.rollbacks
  · simpa only [hsettled] using ht.owed_eq

/-- **A run that failed** has compensated what its steps left to it, and owes nothing. -/
theorem failed {workflow : String} (ht : Ledger r t cs owed) (h : t.Ends v)
    (hf : v.failure? = some workflow) (hcomp : r.Compensates workflow owed.reverse v.compensating)
    (hall : v.rollbacks.Perm (t.rollbacks ++ owed.map Compensation.notice)) : Ledger r v cs [] := by
  -- the run itself failed, so it settles whatever is inside it
  have hsettled : ∀ site, v.settled site = true := fun site => by
    rw [Trace.settled_eq, hf]
    rfl
  have hpending : owedFor (v.pending cs) = owed := by
    rw [ht.owed_eq, Trace.pending]
    simp only [settledInside_of_ends h]
  have hlists : v.Lists cs := ⟨h.completions ▸ ht.lists.perm, ht.lists.ordered⟩
  refine ⟨hlists, ?_, ?_, ?_⟩
  · rintro (_ | ⟨l, site⟩)
    · rw [Trace.inside, Trace.Settles, hf]
      exact ⟨cs, hlists, hpending ▸ hcomp⟩
    · rw [Trace.inside, h.within]
      exact ht.settles (l :: site)
  -- what was settled further in and what this run settles are together all completions
  · have hcs : cs.filter (fun c => v.settled c.site) = cs :=
      List.filter_eq_self.2 fun c _ => hsettled c.site
    refine (hall.trans (ht.rollbacks.append_right _)).trans ?_
    rw [ht.owed_eq, ← List.map_append, ← owedFor_append, hcs]
    exact ((List.filter_append_perm (fun c => t.settled c.site) cs).flatMap_right _).map _
  · simp [hsettled, owedFor]

end Ledger

end Stepflow
