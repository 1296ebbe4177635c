import Stepflow.Proofs.Script.Asking
import Stepflow.Proofs.Script.Interleaving
import Stepflow.Run.Request

/-!
# Traces of runs

The trace of a run lists what the run exchanged with its surroundings. Every entry names its site, so
a trace can be looked at one layer at a time: `within` is the part of a trace inside a layer, `inside`
the part at the end of a path of layers, and `own` what is at no layer. A script in one layer more has
the same traces with the layer in front of every site.
-/

namespace Stepflow

open Script

/-- A request of a run with its answer. -/
abbrev Entry (κ : Type) : Type := Exchange (Inquiry κ) Inquiry.Answer

/-- What a run exchanged with its surroundings, in order. -/
abbrev Trace (κ : Type) : Type := List (Entry κ)

variable {κ : Type} {α β : Type}

/-- A request, one layer further in. -/
def Inquiry.into (l : Layer) (q : Inquiry κ) : Inquiry κ :=
  { site := l :: q.site, step := q.step, request := q.request }

namespace Entry

/-- The entry, one layer further in. -/
def into (l : Layer) (e : Entry κ) : Entry κ := ⟨e.request.into l, e.answer⟩

/-- The entry as it looks from inside a layer, if it is there. -/
def outOf? (l : Layer) : Entry κ → Option (Entry κ)
  | ⟨⟨m :: site, step, request⟩, answer⟩ =>
    if m = l then some ⟨⟨site, step, request⟩, answer⟩ else none
  | ⟨⟨[], _, _⟩, _⟩ => none

@[simp] theorem outOf?_into (l m : Layer) (e : Entry κ) :
    (e.into m).outOf? l = if m = l then some e else none := by
  obtain ⟨⟨site, step, request⟩, answer⟩ := e
  rfl

end Entry

namespace Trace

/-- The part of the trace inside a layer. -/
def within (t : Trace κ) (l : Layer) : Trace κ := t.filterMap (Entry.outOf? l)

/-- The part of the trace at the end of a path of layers. -/
def inside : Trace κ → Site → Trace κ
  | t, [] => t
  | t, l :: site => (t.within l).inside site

/-- The part of the trace at no layer. -/
def own (t : Trace κ) : Trace κ := t.filter fun e => e.request.site.isEmpty

/-- The outermost layers of the entries. -/
def layers (t : Trace κ) : List Layer := t.filterMap fun e => e.request.site.head?

/-- The trace, one layer further in. -/
def into (t : Trace κ) (l : Layer) : Trace κ := t.map (Entry.into l)

@[simp] theorem within_nil (l : Layer) : within ([] : Trace κ) l = [] := rfl

@[simp] theorem within_append (t u : Trace κ) (l : Layer) :
    within (t ++ u) l = within t l ++ within u l := List.filterMap_append

@[simp] theorem own_append (t u : Trace κ) : own (t ++ u) = own t ++ own u := List.filter_append t u

@[simp] theorem layers_append (t u : Trace κ) : layers (t ++ u) = layers t ++ layers u :=
  List.filterMap_append

@[simp] theorem into_nil (l : Layer) : into ([] : Trace κ) l = [] := rfl

@[simp] theorem own_into (t : Trace κ) (l : Layer) : (t.into l).own = [] := by
  rw [own, into, List.filter_eq_nil_iff]
  intro e he
  obtain ⟨e, _, rfl⟩ := List.mem_map.1 he
  simp [Entry.into, Inquiry.into]

theorem within_into (t : Trace κ) (l m : Layer) :
    (t.into m).within l = if m = l then t else [] := by
  induction t with
  | nil => simp
  | cons e t ih =>
    rw [into, within, List.map_cons, List.filterMap_cons, Entry.outOf?_into]
    rw [into, within] at ih
    by_cases h : m = l
    · rw [if_pos h] at ih
      rw [if_pos h, if_pos h]
      exact congrArg (List.cons e) ih
    · rw [if_neg h] at ih
      rw [if_neg h, if_neg h]
      exact ih

/-- From inside the layer the trace is as it was. -/
@[simp] theorem within_into_self (t : Trace κ) (l : Layer) : (t.into l).within l = t := by
  rw [within_into, if_pos rfl]

theorem layers_into (t : Trace κ) (l : Layer) : (t.into l).layers = List.replicate t.length l := by
  induction t with
  | nil => rfl
  | cons e t ih =>
    rw [into, layers, List.map_cons, List.filterMap_cons]
    rw [into, layers] at ih
    rw [ih]
    rfl

theorem mem_layers_into {t : Trace κ} {l m : Layer} (h : m ∈ (t.into l).layers) : m = l := by
  rw [layers_into] at h
  exact List.eq_of_mem_replicate h

@[simp] theorem inside_nil (site : Site) : inside ([] : Trace κ) site = [] := by
  induction site with
  | nil => rfl
  | cons l site ih => exact ih

@[simp] theorem inside_append (t u : Trace κ) (site : Site) :
    inside (t ++ u) site = inside t site ++ inside u site := by
  induction site generalizing t u with
  | nil => rfl
  | cons l site ih => rw [inside, within_append, ih]; rfl

/-- The end of a path is the end of its last part. -/
theorem inside_inside (t : Trace κ) (site site' : Site) :
    (t.inside site).inside site' = t.inside (site ++ site') := by
  induction site generalizing t with
  | nil => rfl
  | cons l site ih => exact ih (t.within l)

/-- What is in a layer is what the trace has there, one layer further in. -/
theorem mem_within {t : Trace κ} {l : Layer} {e : Entry κ} : e ∈ t.within l ↔ e.into l ∈ t := by
  rw [within, List.mem_filterMap]
  constructor
  · rintro ⟨⟨⟨_ | ⟨m, site⟩, step, request⟩, answer⟩, he, hout⟩
    · contradiction
    · rw [Entry.outOf?] at hout
      split at hout
      · rename_i hm
        subst hm
        injection hout with hout
        subst hout
        exact he
      · contradiction
  · exact fun he => ⟨_, he, by rw [Entry.outOf?_into, if_pos rfl]⟩

/-- **Something happens at the end of a path** exactly if something happens there or further in. -/
theorem inside_ne_nil_iff {t : Trace κ} {site : Site} :
    t.inside site ≠ [] ↔ ∃ e ∈ t, site <+: e.request.site := by
  induction site generalizing t with
  | nil =>
    constructor
    · intro h
      obtain ⟨e, he⟩ := List.exists_mem_of_ne_nil t h
      exact ⟨e, he, List.nil_prefix⟩
    · exact fun ⟨e, he, _⟩ => List.ne_nil_of_mem he
  | cons l site ih =>
    rw [inside, ih]
    constructor
    · rintro ⟨e, he, hp⟩
      exact ⟨_, mem_within.1 he, List.cons_prefix_cons.2 ⟨rfl, hp⟩⟩
    · rintro ⟨⟨⟨_ | ⟨m, site'⟩, step, request⟩, answer⟩, he, hp⟩
      · exact absurd hp (by simp)
      · obtain ⟨rfl, hrest⟩ := List.cons_prefix_cons.1 hp
        exact ⟨⟨⟨site', step, request⟩, answer⟩, mem_within.2 he, hrest⟩

/-- A layer is empty exactly if no entry is in it. -/
theorem within_eq_nil_iff {t : Trace κ} {l : Layer} : t.within l = [] ↔ l ∉ t.layers := by
  rw [within, layers, List.filterMap_eq_nil_iff, List.mem_filterMap]
  constructor
  · rintro h ⟨e, he, hl⟩
    have := h e he
    obtain ⟨⟨_ | ⟨m, site⟩, step, request⟩, answer⟩ := e
    · simp at hl
    · simp only [List.head?_cons, Option.some.injEq] at hl
      simp [Entry.outOf?, hl] at this
  · intro h e he
    obtain ⟨⟨_ | ⟨m, site⟩, step, request⟩, answer⟩ := e
    · rfl
    · exact if_neg fun hm => h ⟨_, he, congrArg some hm⟩

theorem mem_layers_iff {t : Trace κ} {l : Layer} : l ∈ t.layers ↔ t.within l ≠ [] := by
  rw [ne_eq, within_eq_nil_iff, Decidable.not_not]

/-- A trace with no layers is its own. -/
theorem own_eq_self {t : Trace κ} (h : t.layers = []) : t.own = t := by
  rw [own, List.filter_eq_self]
  intro e he
  have := List.filterMap_eq_nil_iff.1 h e he
  rwa [List.isEmpty_iff, ← List.head?_eq_none_iff]

end Trace

namespace Script.Interleaving

variable {t u v : Trace κ}

theorem within (h : Interleaving t u v) (l : Layer) :
    Interleaving (t.within l) (u.within l) (v.within l) := h.filterMap _

theorem mem_layers (h : Interleaving t u v) {l : Layer} :
    l ∈ v.layers ↔ l ∈ t.layers ∨ l ∈ u.layers := (h.filterMap _).mem_iff

/-- A layer that is in the first trace alone is the same in the whole. -/
theorem within_left (h : Interleaving t u v) {l : Layer} (hl : l ∉ u.layers) :
    v.within l = t.within l := by
  have := h.within l
  rw [Trace.within_eq_nil_iff.2 hl] at this
  exact this.eq_of_nil_right

theorem within_right (h : Interleaving t u v) {l : Layer} (hl : l ∉ t.layers) :
    v.within l = u.within l := by
  have := h.within l
  rw [Trace.within_eq_nil_iff.2 hl] at this
  exact this.eq_of_nil_left

end Script.Interleaving

/-! ## Scripts in a layer -/

/-- The turn, one layer further in. -/
def Script.Turn.into (l : Layer) : Turn (Inquiry κ) Inquiry.Answer → Turn (Inquiry κ) Inquiry.Answer
  | .asked e => .asked (Entry.into l e)
  | .polled deadline ended => .polled deadline ended
  | .slept deadline cancelled => .slept deadline cancelled

theorem Script.exchanges_into (h : History (Inquiry κ) Inquiry.Answer) (l : Layer) :
    exchanges (h.map (Turn.into l)) = Trace.into (exchanges h) l := by
  induction h with
  | nil => rfl
  | cons turn h ih =>
    cases turn with
    | asked e => exact congrArg (List.cons (Entry.into l e)) ih
    | polled deadline ended => exact ih
    | slept deadline cancelled => exact ih

namespace RunScript

/-- **A script in one layer more** has the same histories, one layer further in. -/
theorem unfolds_under {l : Layer} {s : RunScript κ α} {h : History (Inquiry κ) Inquiry.Answer} {a : α} :
    (s.under l).Unfolds h a ↔ ∃ k, s.Unfolds k a ∧ h = k.map (Turn.into l) := by
  induction s generalizing h with
  | done b =>
    rw [under, unfolds_done]
    constructor
    · rintro ⟨rfl, rfl⟩
      exact ⟨[], .done _, rfl⟩
    · rintro ⟨k, u, rfl⟩
      obtain ⟨rfl, rfl⟩ := unfolds_done.1 u
      exact ⟨rfl, rfl⟩
  | ask q next ih =>
    rw [under, unfolds_ask]
    constructor
    · rintro ⟨x, k, u, rfl⟩
      obtain ⟨k, v, rfl⟩ := (ih x).1 u
      exact ⟨_, unfolds_ask.2 ⟨x, k, v, rfl⟩, rfl⟩
    · rintro ⟨k, u, rfl⟩
      obtain ⟨x, k, v, rfl⟩ := unfolds_ask.1 u
      exact ⟨x, _, (ih x).2 ⟨k, v, rfl⟩, rfl⟩
  | poll deadline next ih =>
    rw [under, unfolds_poll]
    constructor
    · rintro ⟨x, k, u, rfl⟩
      obtain ⟨k, v, rfl⟩ := (ih x).1 u
      exact ⟨_, .poll x v, rfl⟩
    · rintro ⟨k, u, rfl⟩
      obtain ⟨x, k, v, rfl⟩ := unfolds_poll.1 u
      exact ⟨x, _, (ih x).2 ⟨k, v, rfl⟩, rfl⟩
  | pause next ih =>
    rw [under, unfolds_pause, ih]
    simp only [unfolds_pause]
  | sleep deadline next ih =>
    rw [under, unfolds_sleep]
    constructor
    · rintro ⟨x, k, u, rfl⟩
      obtain ⟨k, v, rfl⟩ := (ih x).1 u
      exact ⟨_, .sleep x v, rfl⟩
    · rintro ⟨k, u, rfl⟩
      obtain ⟨x, k, v, rfl⟩ := unfolds_sleep.1 u
      exact ⟨x, _, (ih x).2 ⟨k, v, rfl⟩, rfl⟩

/-- And so it has the same traces. -/
theorem traces_under {l : Layer} {s : RunScript κ α} {t : Trace κ} {a : α} :
    (s.under l).Traces t a ↔ ∃ u : Trace κ, s.Traces u a ∧ t = u.into l := by
  constructor
  · rintro ⟨h, u, rfl⟩
    obtain ⟨k, v, rfl⟩ := unfolds_under.1 u
    exact ⟨_, v.traces, exchanges_into k l⟩
  · rintro ⟨_, ⟨k, v, rfl⟩, rfl⟩
    exact ⟨_, unfolds_under.2 ⟨k, v, rfl⟩, exchanges_into k l⟩

theorem asksOnly_under {p : Inquiry κ → Prop} {l : Layer} {s : RunScript κ α}
    (h : s.AsksOnly fun q => p (q.into l)) : (s.under l).AsksOnly p := by
  induction s with
  | done a => trivial
  | ask q next ih => exact ⟨h.1, fun x => ih x (h.2 x)⟩
  | poll deadline next ih => exact fun x => ih x (h x)
  | pause next ih => exact ih h
  | sleep deadline next ih => exact fun x => ih x (h x)

theorem prompt_under {l : Layer} {s : RunScript κ α} (h : s.Prompt) : (s.under l).Prompt := by
  cases s with
  | done a => trivial
  | ask q next => trivial
  | poll deadline next => exact h.elim
  | pause next => exact h.elim
  | sleep deadline next => exact h.elim

theorem asksFirst_under {l : Layer} {s : RunScript κ α} (h : s.AsksFirst) : (s.under l).AsksFirst := by
  obtain ⟨q, next, rfl⟩ := h.eq_ask
  trivial

end RunScript

end Stepflow
