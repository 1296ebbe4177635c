import Mathlib.Data.List.Forall2
import Stepflow.Proofs.Script.History
import Stepflow.Script.Basic

/-!
# What scripts side by side exchange

Scripts that run side by side take turns, and how they do depends on when they give way and when they
sleep. Of their exchanges it says only this: those of the whole are an interleaving of those of the
members, and each member ends as it would alone with the same answers. And where no sleep of the whole
is cancelled, none of a member is (`StillTraces`).
-/

namespace Stepflow.Script

/-- The third list holds the first two, each in its order. -/
inductive Interleaving {α : Type} : List α → List α → List α → Prop
  | nil : Interleaving [] [] []
  | left {a as bs cs} : Interleaving as bs cs → Interleaving (a :: as) bs (a :: cs)
  | right {b as bs cs} : Interleaving as bs cs → Interleaving as (b :: bs) (b :: cs)

namespace Interleaving

variable {α β : Type} {as bs cs : List α}

theorem nil_left : ∀ bs : List α, Interleaving [] bs bs
  | [] => .nil
  | _ :: bs => .right (nil_left bs)

/-- One list after the other. -/
theorem append : ∀ as bs : List α, Interleaving as bs (as ++ bs)
  | [], bs => nil_left bs
  | _ :: as, bs => .left (append as bs)

theorem perm (h : Interleaving as bs cs) : cs.Perm (as ++ bs) := by
  induction h with
  | nil => rfl
  | left _ ih => exact ih.cons _
  | right _ ih => exact (ih.cons _).trans List.perm_middle.symm

theorem mem_iff (h : Interleaving as bs cs) {x : α} : x ∈ cs ↔ x ∈ as ∨ x ∈ bs := by
  rw [h.perm.mem_iff, List.mem_append]

/-- Members can be chosen and changed before or after. -/
theorem filterMap (h : Interleaving as bs cs) (f : α → Option β) :
    Interleaving (as.filterMap f) (bs.filterMap f) (cs.filterMap f) := by
  induction h with
  | nil => exact .nil
  | @left a as bs cs _ ih =>
    rw [List.filterMap_cons, List.filterMap_cons]
    cases f a with
    | none => exact ih
    | some x => exact .left ih
  | @right b as bs cs _ ih =>
    rw [List.filterMap_cons, List.filterMap_cons]
    cases f b with
    | none => exact ih
    | some x => exact .right ih

theorem filter (h : Interleaving as bs cs) (p : α → Bool) :
    Interleaving (as.filter p) (bs.filter p) (cs.filter p) := by
  rw [← List.filterMap_eq_filter]
  exact h.filterMap _

theorem eq_of_nil_left (h : Interleaving [] bs cs) : cs = bs := by
  induction cs generalizing bs with
  | nil =>
    cases h
    rfl
  | cons c cs ih =>
    obtain _ | _ | h := h
    rw [ih h]

theorem eq_of_nil_right (h : Interleaving as [] cs) : cs = as := by
  induction cs generalizing as with
  | nil =>
    cases h
    rfl
  | cons c cs ih =>
    obtain _ | h | _ := h
    rw [ih h]

end Interleaving

variable {ρ : Type} {Answer : ρ → Type} {α β γ : Type}

/-! ## Histories in which sleeps may be cancelled -/

/-- The turn is the answer that a sleep is cancelled. -/
def Turn.isWoken : Turn ρ Answer → Bool
  | .asked _ => false
  | .polled _ ended => ended = some true
  | .slept _ cancelled => cancelled

/-- **No sleep is cancelled** in the history. -/
def Unwoken (h : History ρ Answer) : Prop := ∀ turn ∈ h, turn.isWoken = false

theorem unwoken_append {h k : History ρ Answer} : Unwoken (h ++ k) ↔ Unwoken h ∧ Unwoken k :=
  List.forall_mem_append

/-- A script makes these exchanges and ends with a result; if it is to be still, no sleep in it is
cancelled. -/
def StillTraces (still : Prop) (s : Script ρ Answer α) (t : List (Exchange ρ Answer)) (a : α) : Prop :=
  ∃ h, s.Unfolds h a ∧ exchanges h = t ∧ (still → Unwoken h)

/-- If it need not be still, any sleep may be. -/
theorem stillTraces_false {s : Script ρ Answer α} {t : List (Exchange ρ Answer)} {a : α} :
    s.StillTraces False t a ↔ s.Traces t a := by
  constructor
  · rintro ⟨h, u, ht, -⟩
    exact ⟨h, u, ht⟩
  · rintro ⟨h, u, ht⟩
    exact ⟨h, u, ht, False.elim⟩

variable {still : Prop}

theorem stillTraces_done {a b : α} {t : List (Exchange ρ Answer)} :
    (Script.done a : Script ρ Answer α).StillTraces still t b ↔ t = [] ∧ b = a := by
  constructor
  · rintro ⟨h, u, rfl, -⟩
    obtain ⟨rfl, rfl⟩ := unfolds_done.1 u
    exact ⟨rfl, rfl⟩
  · rintro ⟨rfl, rfl⟩
    exact ⟨[], .done _, rfl, fun _ => List.forall_mem_nil _⟩

theorem stillTraces_ask {r : ρ} {next : Answer r → Script ρ Answer α} {t : List (Exchange ρ Answer)}
    {a : α} : (Script.ask r next).StillTraces still t a ↔
      ∃ x u, (next x).StillTraces still u a ∧ t = ⟨r, x⟩ :: u := by
  constructor
  · rintro ⟨h, u, rfl, hs⟩
    obtain ⟨x, k, v, rfl⟩ := unfolds_ask.1 u
    exact ⟨x, _, ⟨k, v, rfl, fun hstill => (List.forall_mem_cons.1 (hs hstill)).2⟩, rfl⟩
  · rintro ⟨x, u, ⟨h, v, rfl, hs⟩, rfl⟩
    exact ⟨_, .ask x v, rfl, fun hstill => List.forall_mem_cons.2 ⟨rfl, hs hstill⟩⟩

theorem stillTraces_poll {deadline : Nat} {next : Option Bool → Script ρ Answer α}
    {t : List (Exchange ρ Answer)} {a : α} : (Script.poll deadline next).StillTraces still t a ↔
      ∃ x, (still → x ≠ some true) ∧ (next x).StillTraces still t a := by
  constructor
  · rintro ⟨h, u, rfl, hs⟩
    obtain ⟨x, k, v, rfl⟩ := unfolds_poll.1 u
    refine ⟨x, fun hstill => ?_, k, v, rfl, fun hstill => (List.forall_mem_cons.1 (hs hstill)).2⟩
    exact of_decide_eq_false (List.forall_mem_cons.1 (hs hstill)).1
  · rintro ⟨x, hx, h, v, rfl, hs⟩
    exact ⟨_, .poll x v, rfl, fun hstill =>
      List.forall_mem_cons.2 ⟨decide_eq_false (hx hstill), hs hstill⟩⟩

theorem stillTraces_pause {next : Script ρ Answer α} {t : List (Exchange ρ Answer)} {a : α} :
    (Script.pause next).StillTraces still t a ↔ next.StillTraces still t a := by
  simp only [StillTraces, unfolds_pause]

theorem stillTraces_sleep {deadline : Nat} {next : Bool → Script ρ Answer α}
    {t : List (Exchange ρ Answer)} {a : α} : (Script.sleep deadline next).StillTraces still t a ↔
      ∃ x, (still → x = false) ∧ (next x).StillTraces still t a := by
  constructor
  · rintro ⟨h, u, rfl, hs⟩
    obtain ⟨x, k, v, rfl⟩ := unfolds_sleep.1 u
    exact ⟨x, fun hstill => (List.forall_mem_cons.1 (hs hstill)).1, k, v, rfl,
      fun hstill => (List.forall_mem_cons.1 (hs hstill)).2⟩
  · rintro ⟨x, hx, h, v, rfl, hs⟩
    exact ⟨_, .sleep x v, rfl, fun hstill => List.forall_mem_cons.2 ⟨hx hstill, hs hstill⟩⟩

theorem stillTraces_mapResult {f : α → β} {s : Script ρ Answer α} {t : List (Exchange ρ Answer)}
    {b : β} : (s.mapResult f).StillTraces still t b ↔ ∃ a, s.StillTraces still t a ∧ b = f a := by
  constructor
  · rintro ⟨h, u, rfl, hs⟩
    obtain ⟨a, v, rfl⟩ := unfolds_andThen_done.1 u
    exact ⟨a, ⟨h, v, rfl, hs⟩, rfl⟩
  · rintro ⟨a, ⟨h, v, rfl, hs⟩, rfl⟩
    exact ⟨h, unfolds_andThen_done.2 ⟨a, v, rfl⟩, rfl, hs⟩

/-! ## Two scripts -/

/-- Two scripts exchange an interleaving, and end with a pair of results. -/
def TracesBoth (still : Prop) (s : Script ρ Answer α) (t : Script ρ Answer β)
    (u : List (Exchange ρ Answer)) (c : α × β) : Prop :=
  ∃ v w, s.StillTraces still v c.1 ∧ t.StillTraces still w c.2 ∧ Interleaving v w u

theorem TracesBoth.mono_left {s s' : Script ρ Answer α} {t : Script ρ Answer β}
    {u : List (Exchange ρ Answer)} {c : α × β} (h : TracesBoth still s t u c)
    (hs : ∀ v a, s.StillTraces still v a → s'.StillTraces still v a) :
    TracesBoth still s' t u c := by
  obtain ⟨v, w, hv, hw, i⟩ := h
  exact ⟨v, w, hs _ _ hv, hw, i⟩

theorem TracesBoth.mono_right {s : Script ρ Answer α} {t t' : Script ρ Answer β}
    {u : List (Exchange ρ Answer)} {c : α × β} (h : TracesBoth still s t u c)
    (ht : ∀ w b, t.StillTraces still w b → t'.StillTraces still w b) :
    TracesBoth still s t' u c := by
  obtain ⟨v, w, hv, hw, i⟩ := h
  exact ⟨v, w, hv, ht _ _ hw, i⟩

theorem TracesBoth.ask_right {s : Script ρ Answer α} {r : ρ}
    {next : Answer r → Script ρ Answer β} {x : Answer r} {u : List (Exchange ρ Answer)} {c : α × β}
    (h : TracesBoth still s (next x) u c) : TracesBoth still s (.ask r next) (⟨r, x⟩ :: u) c := by
  obtain ⟨v, w, hv, hw, i⟩ := h
  exact ⟨v, _, hv, stillTraces_ask.2 ⟨x, w, hw, rfl⟩, .right i⟩

/-- A script at its turn is the same script, or awake already. -/
theorem StillTraces.of_atTurn {go : Script ρ Answer β → Script ρ Answer γ} {t : Script ρ Answer β}
    {u : List (Exchange ρ Answer)} {c : γ} (h : (t.atTurn go).StillTraces still u c) :
    ∃ t', (∀ w b, t'.StillTraces still w b → t.StillTraces still w b) ∧
      (go t').StillTraces still u c := by
  cases t with
  | sleep deadline next =>
    obtain ⟨_ | x, hx, h⟩ := stillTraces_poll.1 h
    · exact ⟨.sleep deadline next, fun _ _ => id, h⟩
    · refine ⟨next x, fun _ _ hw => stillTraces_sleep.2 ⟨x, fun hstill => ?_, hw⟩, h⟩
      exact Bool.eq_false_iff.2 fun heq => hx hstill (congrArg some heq)
  | done b => exact ⟨_, fun _ _ => id, h⟩
  | ask r next => exact ⟨_, fun _ _ => id, h⟩
  | poll deadline next => exact ⟨_, fun _ _ => id, h⟩
  | pause next => exact ⟨_, fun _ _ => id, h⟩

/-- When one script is done, what it still exchanges is nothing. -/
theorem TracesBoth.of_alone_left {a : α} {t : Script ρ Answer β} {u : List (Exchange ρ Answer)}
    {c : α × β} (h : (t.mapResult (a, ·)).StillTraces still u c) :
    TracesBoth still (.done a) t u c := by
  obtain ⟨b, hu, rfl⟩ := stillTraces_mapResult.1 h
  exact ⟨[], u, stillTraces_done.2 ⟨rfl, rfl⟩, hu, .nil_left u⟩

theorem TracesBoth.of_alone_right {b : β} {s : Script ρ Answer α} {u : List (Exchange ρ Answer)}
    {c : α × β} (h : (s.mapResult (·, b)).StillTraces still u c) :
    TracesBoth still s (.done b) u c := by
  obtain ⟨a, hu, rfl⟩ := stillTraces_mapResult.1 h
  exact ⟨u, [], hu, stillTraces_done.2 ⟨rfl, rfl⟩, by simpa using Interleaving.append u []⟩

variable {s : Script ρ Answer α} {c : α × β}

theorem TracesBoth.of_whilePaused {resume : Script ρ Answer β → Script ρ Answer (α × β)}
    {alone : β → Script ρ Answer (α × β)}
    (hresume : ∀ t u, (resume t).StillTraces still u c → TracesBoth still s t u c)
    (halone : ∀ b u, (alone b).StillTraces still u c → TracesBoth still s (.done b) u c)
    {t : Script ρ Answer β} {u : List (Exchange ρ Answer)}
    (h : (t.whilePaused resume alone).StillTraces still u c) : TracesBoth still s t u c := by
  induction t generalizing u with
  | done b => exact halone b u (stillTraces_pause.1 h)
  | ask r next ih =>
    obtain ⟨x, u, hu, rfl⟩ := stillTraces_ask.1 h
    exact (ih x hu).ask_right
  | poll deadline next ih =>
    obtain ⟨x, hx, hu⟩ := stillTraces_poll.1 h
    exact (ih x hu).mono_right fun w b hw => stillTraces_poll.2 ⟨x, hx, hw⟩
  | pause next _ =>
    exact (hresume next u (stillTraces_pause.1 h)).mono_right fun w b hw => stillTraces_pause.2 hw
  | sleep deadline next _ => exact hresume _ u (stillTraces_pause.1 h)

theorem TracesBoth.of_whileAsleep {limit : Nat}
    {wake : Bool → Script ρ Answer β → Script ρ Answer (α × β)}
    {alone : β → Script ρ Answer (α × β)}
    (hwake : ∀ x, (still → x = false) → ∀ t u, (wake x t).StillTraces still u c →
      TracesBoth still s t u c)
    (halone : ∀ b u, (alone b).StillTraces still u c → TracesBoth still s (.done b) u c)
    {t : Script ρ Answer β} {u : List (Exchange ρ Answer)}
    (h : (t.whileAsleep limit wake alone).StillTraces still u c) : TracesBoth still s t u c := by
  induction t generalizing u with
  | done b => exact halone b u h
  | ask r next ih =>
    obtain ⟨x, u, hu, rfl⟩ := stillTraces_ask.1 h
    exact (ih x hu).ask_right
  | poll deadline next ih =>
    obtain ⟨x, hx, hu⟩ := stillTraces_poll.1 h
    exact (ih x hu).mono_right fun w b hw => stillTraces_poll.2 ⟨x, hx, hw⟩
  | pause next ih =>
    have hnext : TracesBoth still s next u c := by
      obtain ⟨_ | x, hx, hu⟩ := stillTraces_poll.1 (stillTraces_pause.1 h)
      · exact ih hu
      · refine hwake x (fun hstill => ?_) next u hu
        exact Bool.eq_false_iff.2 fun heq => hx hstill (congrArg some heq)
    exact hnext.mono_right fun w b hw => stillTraces_pause.2 hw
  | sleep deadline next ih =>
    obtain ⟨x, hx, hu⟩ := stillTraces_sleep.1 h
    split at hu
    · exact hwake x hx _ u hu
    · exact (ih false hu).mono_right fun w b hw => stillTraces_sleep.2 ⟨false, fun _ => rfl, hw⟩

/-- **Two scripts side by side** exchange an interleaving of what each exchanges alone. -/
theorem TracesBoth.of_both {t : Script ρ Answer β} {u : List (Exchange ρ Answer)}
    (h : (s.both t).StillTraces still u c) : TracesBoth still s t u c := by
  induction s generalizing t u with
  | done a =>
    rw [both_done_left] at h
    obtain ⟨t', ht, h⟩ := h.of_atTurn
    exact (of_alone_left h).mono_right ht
  | ask r next ih =>
    rw [both_ask_left] at h
    obtain ⟨x, u, hu, rfl⟩ := stillTraces_ask.1 h
    obtain ⟨v, w, hv, hw, i⟩ := ih x hu
    exact ⟨_, w, stillTraces_ask.2 ⟨x, v, hv, rfl⟩, hw, .left i⟩
  | poll deadline next ih =>
    rw [both] at h
    obtain ⟨x, hx, hu⟩ := stillTraces_poll.1 h
    exact (ih x hu).mono_left fun v a hv => stillTraces_poll.2 ⟨x, hx, hv⟩
  | pause next ih =>
    rw [both] at h
    obtain ⟨t', ht, h⟩ := h.of_atTurn
    -- the second runs until it gives way, then the first goes on from `next`
    have hboth : TracesBoth still next t' u c :=
      .of_whilePaused (fun _ _ => ih) (fun _ _ => .of_alone_right) h
    exact (hboth.mono_right ht).mono_left fun v a hv => stillTraces_pause.2 hv
  | sleep deadline next ih =>
    rw [both] at h
    obtain ⟨t', ht, h⟩ := h.of_atTurn
    -- the second runs until the first wakes, or is done before
    have hboth : TracesBoth still (.sleep deadline next) t' u c := by
      refine .of_whileAsleep (fun x hx _ _ hu => ?_) (fun b _ hu => ?_) h
      · exact (ih x hu).mono_left fun v a hv => stillTraces_sleep.2 ⟨x, hx, hv⟩
      · obtain ⟨x, hx, hu⟩ := stillTraces_sleep.1 hu
        exact (of_alone_right hu).mono_left fun v a hv => stillTraces_sleep.2 ⟨x, hx, hv⟩
    exact hboth.mono_right ht

/-! ## Many scripts -/

/-- Many scripts exchange an interleaving, and end with a list of results. -/
inductive TracesAll : List (Script ρ Answer α) → List (Exchange ρ Answer) → List α → Prop
  | nil : TracesAll [] [] []
  | cons {s : Script ρ Answer α} {rest v w u a as} : s.Traces v a → TracesAll rest w as →
      Interleaving v w u → TracesAll (s :: rest) u (a :: as)

/-- **Many scripts side by side** exchange an interleaving of what each exchanges alone. -/
theorem TracesAll.of_all {ss : List (Script ρ Answer α)} {u : List (Exchange ρ Answer)}
    {as : List α} (h : (all ss).Traces u as) : TracesAll ss u as := by
  induction ss generalizing u as with
  | nil =>
    obtain ⟨rfl, rfl⟩ := traces_done.1 h
    exact .nil
  | cons s rest ih =>
    obtain ⟨⟨a, as⟩, hu, rfl⟩ := stillTraces_mapResult.1 (stillTraces_false.2 h)
    obtain ⟨v, w, hv, hw, i⟩ := TracesBoth.of_both hu
    exact .cons (stillTraces_false.1 hv) (ih (stillTraces_false.1 hw)) i

/-- **Each member** of many scripts side by side exchanges some of what they exchange together; and none
of its sleeps is cancelled if no sleep of them all is. -/
theorem members_of_all {ss : List (Script ρ Answer α)} {h : History ρ Answer} {as : List α}
    (u : (all ss).Unfolds h as) : List.Forall₂ (fun s a => ∃ k, s.Unfolds k a ∧
      exchanges k ⊆ exchanges h ∧ (Unwoken h → Unwoken k)) ss as := by
  induction ss generalizing h as with
  | nil =>
    obtain ⟨rfl, rfl⟩ := unfolds_done.1 u
    exact .nil
  | cons s rest ih =>
    have hall : (all (s :: rest)).StillTraces (Unwoken h) (exchanges h) as := ⟨h, u, rfl, id⟩
    obtain ⟨⟨a, as⟩, hboth, rfl⟩ := stillTraces_mapResult.1 hall
    obtain ⟨v, w, ⟨k, uk, rfl, hk⟩, ⟨l, ul, rfl, hl⟩, i⟩ := TracesBoth.of_both hboth
    refine .cons ⟨k, uk, fun e he => i.mem_iff.2 (.inl he), hk⟩ ((ih ul).imp ?_)
    rintro s b ⟨m, um, hsub, hm⟩
    exact ⟨m, um, fun e he => i.mem_iff.2 (.inr (hsub he)), fun hstill => hm (hl hstill)⟩

end Stepflow.Script
