import Stepflow.Proofs.Run.Ledger

/-!
# What is recorded of a trace

The results of a run keep the completions of the steps inside a step, but not all: those of a step
that is not done are dropped, and so are those of a try that was followed by another. `Trace.recorded`
reads off the trace which completions are kept.

`Memory known t cs outputs recorded` ties a trace with the completions `cs` to two accounts of it. The
run around it is given the outputs of its own completions, nested runs left out. A replay finds
`recorded`: the outputs of all completions that are kept, nested runs included, and, where the names of
steps are told apart (`known`), the compensations of those that are kept and its own. The two accounts
are not the same, and each is carried from parts to wholes as the ledger is.
-/

namespace Stepflow

open Script

variable {κ : Type} {r : Runner κ} {known : Prop} {t u v : Trace κ} {cs ds : List Completion}
  {outputs outputs' : List (String × Value)} {e e' : Effects}

namespace Trace

/-- Whether a layer is a try of a step that was tried again later. -/
def superseded (t : Trace κ) : Layer → Bool
  | .attempt k => t.layers.any fun
    | .attempt j => k < j
    | _ => false
  | _ => false

/-- **Whether the results keep what is at a site**: the steps around it are done, and their tries are
the last ones. -/
def recorded (t : Trace κ) : Site → Bool
  | [] => true
  | l :: site => !t.undone && !t.superseded l && (t.within l).recorded site

theorem superseded_iff {l : Layer} :
    t.superseded l = true ↔ ∃ k j, l = .attempt k ∧ .attempt j ∈ t.layers ∧ k < j := by
  constructor
  · intro h
    cases l with
    | attempt k =>
      rw [superseded, List.any_eq_true] at h
      obtain ⟨m, hm, h⟩ := h
      cases m with
      | attempt j => exact ⟨k, j, rfl, hm, of_decide_eq_true h⟩
      | _ => contradiction
    | _ => contradiction
  · rintro ⟨k, j, rfl, hm, h⟩
    exact List.any_eq_true.2 ⟨_, hm, decide_eq_true h⟩

/-- Which tries were followed by others can be told from the layers. -/
theorem superseded_congr {l : Layer} (h : ∀ j, .attempt j ∈ t.layers ↔ .attempt j ∈ u.layers) :
    t.superseded l = u.superseded l := by
  rw [Bool.eq_iff_iff, superseded_iff, superseded_iff]
  simp only [h]

theorem superseded_eq_false (h : ∀ k, .attempt k ∉ t.layers) (l : Layer) :
    t.superseded l = false := by
  rw [Bool.eq_false_iff, ne_eq, superseded_iff]
  rintro ⟨_, j, _, hj, _⟩
  exact h j hj

theorem recorded_cons (hc : t.Calm) (l : Layer) (site : Site) :
    t.recorded (l :: site) = (!t.superseded l && (t.within l).recorded site) := by
  rw [recorded, hc.undone_eq_false]
  rfl

end Trace

/-- **What is remembered of a trace**, live and by its results. -/
structure Memory (known : Prop) (t : Trace κ) (cs : List Completion)
    (outputs : List (String × Value)) (recorded : Effects) : Prop where
  /-- The run around the trace is given the outputs of its own completions. -/
  outputs_eq : outputs = (cs.filter fun c => c.site.isOwn).map Completion.entry
  /-- The results give those of the completions that they keep. -/
  recorded_outputs : recorded.outputs = (cs.filter fun c => t.recorded c.site).map Completion.entry
  /-- And the compensations of those that they keep and that are its own. -/
  recorded_compensations : known →
    recorded.compensations = owedFor (cs.filter fun c => c.site.isOwn && t.recorded c.site)

namespace Memory

theorem nil : Memory known t [] [] .empty := ⟨rfl, rfl, fun _ => rfl⟩

theorem filter_own_congr {p q : Completion → Bool} (h : ∀ c ∈ cs, p c = q c) :
    cs.filter (fun c => c.site.isOwn && p c) = cs.filter fun c => c.site.isOwn && q c :=
  List.filter_congr fun c hc => by rw [h c hc]

theorem filter_eq_nil {p : Completion → Bool} (h : ∀ c ∈ cs, p c = false) : cs.filter p = [] :=
  List.filter_eq_nil_iff.2 fun c hc => by simp [h c hc]

theorem mono {known' : Prop} (h : Memory known t cs outputs e) (hk : known' → known) :
    Memory known' t cs outputs e :=
  ⟨h.outputs_eq, h.recorded_outputs, fun k => h.recorded_compensations (hk k)⟩

/-- Two accounts one after the other, once it is clear what the whole keeps of each part. -/
theorem append (ht : Memory known t cs outputs e) (hu : Memory known u ds outputs' e')
    (hcs : ∀ c ∈ cs, v.recorded c.site = t.recorded c.site)
    (hds : ∀ d ∈ ds, v.recorded d.site = u.recorded d.site) :
    Memory known v (cs ++ ds) (outputs ++ outputs') (e ++ e') where
  outputs_eq := by
    rw [List.filter_append, List.map_append, ht.outputs_eq, hu.outputs_eq]
  recorded_outputs := by
    rw [List.filter_append, List.map_append, List.filter_congr hcs, List.filter_congr hds,
      Effects.outputs_append, ht.recorded_outputs, hu.recorded_outputs]
  recorded_compensations k := by
    rw [List.filter_append, owedFor_append, filter_own_congr hcs, filter_own_congr hds,
      Effects.compensations_append, ht.recorded_compensations k, hu.recorded_compensations k]

/-- A part of which the whole keeps nothing still gives its outputs. -/
theorem dropLeft (ht : Memory known t cs outputs e) (hu : Memory known u ds outputs' e')
    (hcs : ∀ c ∈ cs, v.recorded c.site = false)
    (hds : ∀ d ∈ ds, v.recorded d.site = u.recorded d.site) :
    Memory known v (cs ++ ds) (outputs ++ outputs') e' where
  outputs_eq := by
    rw [List.filter_append, List.map_append, ht.outputs_eq, hu.outputs_eq]
  recorded_outputs := by
    rw [List.filter_append, filter_eq_nil hcs, List.filter_congr hds, hu.recorded_outputs,
      List.nil_append]
  recorded_compensations k := by
    rw [List.filter_append, filter_own_congr hcs, filter_eq_nil fun c _ => Bool.and_false _,
      filter_own_congr hds, hu.recorded_compensations k, List.nil_append]

/-- What the whole keeps of the first of two joined traces, if no try of it is followed by one in
the second. -/
theorem recorded_left (h : t.Joins u v) (hl : t.Lists cs)
    (hs : ∀ l ∈ t.layers, v.superseded l = t.superseded l) :
    ∀ c ∈ cs, v.recorded c.site = t.recorded c.site := by
  intro c hc
  obtain ⟨l, site, hsite, hlt⟩ := hl.site_of_mem h.calm_left hc
  rw [hsite, Trace.recorded_cons h.calm, Trace.recorded_cons h.calm_left, hs l hlt,
    h.interleaving.within_left (h.not_mem_right hlt)]

/-- No try of the second is followed by one in the first. -/
theorem recorded_right (h : t.Joins u v) (hl : u.Lists ds) :
    ∀ d ∈ ds, v.recorded d.site = u.recorded d.site := by
  intro d hd
  obtain ⟨l, site, hsite, hlu⟩ := hl.site_of_mem h.calm_right hd
  have hs : v.superseded l = u.superseded l := by
    rw [Bool.eq_iff_iff, Trace.superseded_iff, Trace.superseded_iff]
    constructor
    · rintro ⟨k, j, rfl, hj, hkj⟩
      -- a later try in the first part would come before this one
      obtain hj | hj := h.interleaving.mem_layers.1 hj
      · have hlt : j < k := h.before _ hj _ hlu
        omega
      · exact ⟨k, j, rfl, hj, hkj⟩
    · rintro ⟨k, j, rfl, hj, hkj⟩
      exact ⟨k, j, rfl, h.interleaving.mem_layers.2 (.inr hj), hkj⟩
  rw [hsite, Trace.recorded_cons h.calm, Trace.recorded_cons h.calm_right, hs,
    h.interleaving.within_right (h.not_mem_left hlu)]

/-- **Two traces joined**, where tries are only in one of them. -/
theorem join (ht : Memory known t cs outputs e) (hu : Memory known u ds outputs' e')
    (h : t.Joins u v) (hcs : t.Lists cs) (hds : u.Lists ds)
    (hs : (∀ k, .attempt k ∉ t.layers) ∨ ∀ k, .attempt k ∉ u.layers) :
    Memory known v (cs ++ ds) (outputs ++ outputs') (e ++ e') := by
  refine ht.append hu (recorded_left h hcs fun l hl => ?_) (recorded_right h hds)
  obtain hs | hs := hs
  · rw [Trace.superseded_eq_false hs, Bool.eq_false_iff, ne_eq, Trace.superseded_iff]
    rintro ⟨k, _, rfl, _⟩
    exact hs k hl
  · exact Trace.superseded_congr fun j => by simp [h.interleaving.mem_layers, hs j]

/-- **Tries that are followed by another** are not kept. -/
theorem replace (ht : Memory known t cs outputs e) (hu : Memory known u ds outputs' e')
    (h : t.Joins u v) (hcs : t.Lists cs) (hds : u.Lists ds)
    (hs : ∀ l ∈ t.layers, v.superseded l = true) :
    Memory known v (cs ++ ds) (outputs ++ outputs') e' := by
  refine ht.dropLeft hu (fun c hc => ?_) (recorded_right h hds)
  obtain ⟨l, site, hsite, hlt⟩ := hcs.site_of_mem h.calm_left hc
  rw [hsite, Trace.recorded_cons h.calm, hs l hlt]
  rfl

theorem superseded_into (t : Trace κ) (l : Layer) : (t.into l).superseded l = false := by
  rw [Bool.eq_false_iff, ne_eq, Trace.superseded_iff]
  rintro ⟨k, j, rfl, hj, hkj⟩
  have := Trace.mem_layers_into hj
  simp only [Layer.attempt.injEq] at this
  omega

theorem recorded_into (t : Trace κ) (l : Layer) (site : Site) :
    (t.into l).recorded (l :: site) = t.recorded site := by
  rw [Trace.recorded_cons (Trace.calm_into t l), superseded_into, Trace.within_into_self]
  rfl

/-- **One layer further in** nothing is forgotten. -/
theorem into (ht : Memory known t cs outputs e) {l : Layer} (hl : l ≠ .run) :
    Memory known (t.into l) (cs.map (Completion.into l)) outputs e where
  outputs_eq := by
    rw [ht.outputs_eq, List.filter_map, List.map_map]
    simp only [Function.comp_def, Completion.site_into, Site.isOwn_cons hl, Completion.entry_into]
  recorded_outputs := by
    rw [ht.recorded_outputs, List.filter_map, List.map_map]
    simp only [Function.comp_def, Completion.site_into, recorded_into, Completion.entry_into]
  recorded_compensations k := by
    rw [ht.recorded_compensations k, List.filter_map, owedFor_into]
    simp only [Function.comp_def, Completion.site_into, Site.isOwn_cons hl, recorded_into]

/-- **A run inside a step** keeps its outputs to itself, though its results are kept; what it owes is
not found again. -/
theorem intoRun (ht : Memory known t cs outputs e) :
    Memory True (t.into .run) (cs.map (Completion.into .run)) [] ⟨e.outputs, []⟩ where
  outputs_eq := by
    rw [List.filter_map]
    simp only [Function.comp_def, Completion.site_into, Site.isOwn_run]
    simp
  recorded_outputs := by
    rw [ht.recorded_outputs, List.filter_map, List.map_map]
    simp only [Function.comp_def, Completion.site_into, recorded_into, Completion.entry_into]
  recorded_compensations _ := by
    rw [List.filter_map]
    simp only [Function.comp_def, Completion.site_into, Site.isOwn_run, Bool.false_and]
    simp [owedFor]

/-! ## The end of a step and of a run -/

section Completed

variable {workflow : String} {s : Step} {result : StepResult}

theorem undone_completing (hc : t.Calm) :
    (t.completing workflow s result).undone = !result.status.isDone := by
  rw [Trace.undone, Trace.completing, Trace.own_append, List.any_append]
  rw [show t.own.any Entry.isUndone = false from hc.undone_eq_false]
  simp [Trace.own, Entry.ofCompleted, Entry.isUndone]

theorem superseded_completing (l : Layer) :
    (t.completing workflow s result).superseded l = t.superseded l :=
  Trace.superseded_congr fun j => by
    rw [Trace.completing, Trace.layers_append]
    simp [Trace.layers, Entry.ofCompleted]

/-- **A step that is done** adds its own output and compensation to both accounts. -/
theorem complete (ht : Memory known t cs outputs e) (hc : t.Calm) (hl : t.Lists cs)
    (hdone : result.status.isDone) :
    Memory known (t.completing workflow s result) (cs ++ [⟨[], s, result.output⟩])
      (outputs ++ (Effects.ofCompleted s result.output).outputs)
      (e ++ .ofCompleted s result.output) := by
  have hself : Memory known ([] : Trace κ) [⟨[], s, result.output⟩]
      (Effects.ofCompleted s result.output).outputs (.ofCompleted s result.output) :=
    ⟨rfl, rfl, fun _ => (List.append_nil _).symm⟩
  refine ht.append hself (fun c hm => ?_) fun d hd => ?_
  · obtain ⟨l, site, hsite, _⟩ := hl.site_of_mem hc hm
    rw [hsite, Trace.recorded_cons hc, Trace.recorded, undone_completing hc, hdone,
      superseded_completing, Trace.within_completed]
    rfl
  · rw [List.eq_of_mem_singleton hd]
    rfl

/-- Of a step that is not done nothing is kept. -/
theorem giveUp (ht : Memory known t cs outputs e) (hc : t.Calm) (hl : t.Lists cs)
    (hdone : result.status.isDone = false) :
    Memory known (t.completing workflow s result) cs outputs .empty := by
  have hcs : ∀ c ∈ cs, (t.completing workflow s result).recorded c.site = false := fun c hm => by
    obtain ⟨l, site, hsite, _⟩ := hl.site_of_mem hc hm
    rw [hsite, Trace.recorded, undone_completing hc, hdone]
    rfl
  refine ⟨ht.outputs_eq, ?_, fun _ => ?_⟩
  · rw [filter_eq_nil hcs]
    rfl
  · rw [filter_own_congr hcs, filter_eq_nil fun c _ => Bool.and_false _]
    rfl

end Completed

/-- **A run** keeps what its steps keep. -/
theorem ends (ht : Memory known t cs outputs e) (hl : t.Lists cs) (h : t.Ends v)
    (hv : v.undone = false) : Memory known v cs outputs e := by
  have hcs : ∀ c ∈ cs, v.recorded c.site = t.recorded c.site := fun c hm => by
    obtain ⟨l, site, hsite, _⟩ := hl.site_of_mem h.calm hm
    -- the end of the run is at no layer, so it is no try of anything
    have hs : v.superseded l = t.superseded l := Trace.superseded_congr fun j => by
      rw [Trace.mem_layers_iff, Trace.mem_layers_iff, h.within]
    rw [hsite, Trace.recorded_cons h.calm, Trace.recorded, hv, hs, h.within]
    rfl
  refine ⟨ht.outputs_eq, ?_, fun k => ?_⟩
  · rw [ht.recorded_outputs, List.filter_congr hcs]
  · rw [ht.recorded_compensations k, filter_own_congr hcs]

end Memory

end Stepflow
