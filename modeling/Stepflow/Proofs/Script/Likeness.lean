import Mathlib.Data.List.Forall2
import Stepflow.Proofs.Script.History
import Stepflow.Script.Basic

/-!
# Scripts that go on alike

Two scripts are alike if they make requests that are alike for as long as they are answered alike. A
`Likeness` says what this means: which requests ask for the same, which answers lead on alike, and
which deadlines are at the same place. Of two sleeps side by side the one with the nearer deadline ends
first, so deadlines at the same places have to come in the same order; nothing else is said of time.

Likeness goes from parts to wholes, also where scripts run side by side. What it is good for is
`Alike.unfolds`: alike scripts that are answered alike make the same turns, and their results are
related.
-/

namespace Stepflow

/-- What it is to be alike. -/
structure Likeness (ρ : Type) (Answer : ρ → Type) where
  /-- Requests that ask for the same. -/
  asks : ρ → ρ → Prop
  /-- Answers that lead on alike. -/
  answers : (r r' : ρ) → Answer r → Answer r' → Prop
  /-- Deadlines at the same place. -/
  deadlines : Nat → Nat → Prop
  /-- These come in the same order. -/
  le_iff : ∀ {d d' e e' : Nat}, deadlines d d' → deadlines e e' → (d ≤ e ↔ d' ≤ e')

/-- The nearer of two deadlines is at the place of the nearer of the others. -/
theorem Likeness.min_deadlines {ρ : Type} {Answer : ρ → Type} {L : Likeness ρ Answer}
    {d d' e e' : Nat} (h : L.deadlines d d') (h' : L.deadlines e e') :
    L.deadlines (min d e) (min d' e') := by
  have hle := L.le_iff h h'
  by_cases hd : d ≤ e
  · rwa [Nat.min_eq_left hd, Nat.min_eq_left (hle.1 hd)]
  · have hd' : ¬ d' ≤ e' := fun hd' => hd (hle.2 hd')
    rwa [Nat.min_eq_right (by omega), Nat.min_eq_right (by omega)]

namespace Script

variable {ρ : Type} {Answer : ρ → Type} {α β γ δ ε ζ : Type} {L : Likeness ρ Answer}
  {R : α → β → Prop} {S : γ → δ → Prop} {s : Script ρ Answer α} {s' : Script ρ Answer β}
  {t : Script ρ Answer γ} {t' : Script ρ Answer δ}

/-- **Two scripts are alike**, up to a relation of their results. -/
def Alike (L : Likeness ρ Answer) (R : α → β → Prop) :
    Script ρ Answer α → Script ρ Answer β → Prop
  | .done a, .done b => R a b
  | .ask r next, .ask r' next' =>
    L.asks r r' ∧ ∀ x x', L.answers r r' x x' → Alike L R (next x) (next' x')
  | .poll deadline next, .poll deadline' next' =>
    ∀ x, L.deadlines deadline deadline' → Alike L R (next x) (next' x)
  | .pause next, .pause next' => Alike L R next next'
  | .sleep deadline next, .sleep deadline' next' =>
    L.deadlines deadline deadline' ∧ ∀ x, Alike L R (next x) (next' x)
  | _, _ => False

/-! ## Histories -/

/-- Two turns are of one kind and ask for the same. -/
def Turn.Alike (L : Likeness ρ Answer) : Turn ρ Answer → Turn ρ Answer → Prop
  | .asked e, .asked e' => L.asks e.request e'.request
  | .polled .., .polled .. | .slept .., .slept .. => True
  | _, _ => False

/-- **Two histories are answered alike** for as long as they ask for the same: requests are, and sleeps
end at the same places in the same way. -/
def AnsweredAlike (L : Likeness ρ Answer) : History ρ Answer → History ρ Answer → Prop
  | .asked e :: h, .asked e' :: h' =>
    L.asks e.request e'.request → L.answers _ _ e.answer e'.answer ∧ AnsweredAlike L h h'
  | .polled deadline x :: h, .polled deadline' x' :: h' =>
    L.deadlines deadline deadline' ∧ x = x' ∧ AnsweredAlike L h h'
  | .slept _ x :: h, .slept _ x' :: h' => x = x' ∧ AnsweredAlike L h h'
  | _, _ => True

/-- **Alike scripts that are answered alike** make the same turns, and come to related results. -/
theorem Alike.unfolds {h h' : History ρ Answer} {a : α} {b : β} (hs : s.Alike L R s')
    (u : s.Unfolds h a) (u' : s'.Unfolds h' b) (ha : AnsweredAlike L h h') :
    List.Forall₂ (Turn.Alike L) h h' ∧ R a b := by
  induction s generalizing s' h h' with
  | done c =>
    cases s' with
    | done d =>
      obtain ⟨rfl, rfl⟩ := unfolds_done.1 u
      obtain ⟨rfl, rfl⟩ := unfolds_done.1 u'
      exact ⟨.nil, hs⟩
    | _ => exact hs.elim
  | ask r next ih =>
    cases s' with
    | ask r' next' =>
      obtain ⟨x, k, v, rfl⟩ := unfolds_ask.1 u
      obtain ⟨x', k', v', rfl⟩ := unfolds_ask.1 u'
      obtain ⟨hx, hk⟩ := ha hs.1
      obtain ⟨hturns, hres⟩ := ih x (hs.2 x x' hx) v v' hk
      exact ⟨.cons hs.1 hturns, hres⟩
    | _ => exact hs.elim
  | poll deadline next ih =>
    cases s' with
    | poll deadline' next' =>
      obtain ⟨x, k, v, rfl⟩ := unfolds_poll.1 u
      obtain ⟨x', k', v', rfl⟩ := unfolds_poll.1 u'
      obtain ⟨hd, rfl, hk⟩ := ha
      obtain ⟨hturns, hres⟩ := ih x (hs x hd) v v' hk
      exact ⟨.cons trivial hturns, hres⟩
    | _ => exact hs.elim
  | pause next ih =>
    cases s' with
    | pause next' => exact ih hs (unfolds_pause.1 u) (unfolds_pause.1 u') ha
    | _ => exact hs.elim
  | sleep deadline next ih =>
    cases s' with
    | sleep deadline' next' =>
      obtain ⟨x, k, v, rfl⟩ := unfolds_sleep.1 u
      obtain ⟨x', k', v', rfl⟩ := unfolds_sleep.1 u'
      obtain ⟨rfl, hk⟩ := ha
      obtain ⟨hturns, hres⟩ := ih x (hs.2 x) v v' hk
      exact ⟨.cons trivial hturns, hres⟩
    | _ => exact hs.elim

/-! ## Parts and wholes -/

theorem Alike.mono {R' : α → β → Prop} (hs : s.Alike L R s') (h : ∀ a b, R a b → R' a b) :
    s.Alike L R' s' := by
  induction s generalizing s' with
  | done a => cases s' <;> first | exact h _ _ hs | exact hs.elim
  | ask r next ih =>
    cases s' <;> first | exact ⟨hs.1, fun x x' hx => ih x (hs.2 x x' hx)⟩ | exact hs.elim
  | poll deadline next ih =>
    cases s' <;> first | exact fun x hd => ih x (hs x hd) | exact hs.elim
  | pause next ih => cases s' <;> first | exact ih hs | exact hs.elim
  | sleep deadline next ih =>
    cases s' <;> first | exact ⟨hs.1, fun x => ih x (hs.2 x)⟩ | exact hs.elim

/-- Alike scripts that go on alike. -/
theorem Alike.andThen {f : α → Script ρ Answer γ} {f' : β → Script ρ Answer δ}
    (hs : s.Alike L R s') (hf : ∀ a b, R a b → (f a).Alike L S (f' b)) :
    (s.andThen f).Alike L S (s'.andThen f') := by
  induction s generalizing s' with
  | done a => cases s' <;> first | exact hf _ _ hs | exact hs.elim
  | ask r next ih =>
    cases s' <;> first | exact ⟨hs.1, fun x x' hx => ih x (hs.2 x x' hx)⟩ | exact hs.elim
  | poll deadline next ih =>
    cases s' <;> first | exact fun x hd => ih x (hs x hd) | exact hs.elim
  | pause next ih => cases s' <;> first | exact ih hs | exact hs.elim
  | sleep deadline next ih =>
    cases s' <;> first | exact ⟨hs.1, fun x => ih x (hs.2 x)⟩ | exact hs.elim

theorem Alike.mapResult {f : α → γ} {f' : β → δ} (hs : s.Alike L R s')
    (hf : ∀ a b, R a b → S (f a) (f' b)) : (s.mapResult f).Alike L S (s'.mapResult f') :=
  hs.andThen hf

theorem alike_request {r r' : ρ} (h : L.asks r r') :
    (request r : Script ρ Answer (Answer r)).Alike L (L.answers r r') (request r') :=
  ⟨h, fun _ _ hx => hx⟩

theorem alike_pauses (n : Nat) :
    (pauses n : Script ρ Answer Unit).Alike L (fun _ _ => True) (pauses n) := by
  induction n with
  | zero => trivial
  | succ n ih => exact ih

/-- Sleeps end alike. -/
theorem alike_sleepUntil (deadline deadline' : Nat) :
    (sleepUntil deadline : Script ρ Answer Bool).Alike L (· = ·) (sleepUntil deadline') := by
  rintro (_ | x) hd
  · exact ⟨hd, fun _ => rfl⟩
  · rfl

theorem Alike.atTurn {T : ε → ζ → Prop} {go : Script ρ Answer γ → Script ρ Answer ε}
    {go' : Script ρ Answer δ → Script ρ Answer ζ} (ht : t.Alike L S t')
    (hgo : ∀ t t', t.Alike L S t' → (go t).Alike L T (go' t')) :
    (t.atTurn go).Alike L T (t'.atTurn go') := by
  cases t with
  | sleep deadline next =>
    cases t' with
    | sleep deadline' next' =>
      rintro (_ | x) -
      · exact hgo _ _ ht
      · exact hgo _ _ (ht.2 x)
    | _ => exact ht.elim
  | done b => cases t' <;> first | exact hgo _ _ ht | exact ht.elim
  | ask r next => cases t' <;> first | exact hgo _ _ ht | exact ht.elim
  | poll deadline next => cases t' <;> first | exact hgo _ _ ht | exact ht.elim
  | pause next => cases t' <;> first | exact hgo _ _ ht | exact ht.elim

theorem Alike.whilePaused {T : ε → ζ → Prop} {resume : Script ρ Answer γ → Script ρ Answer ε}
    {resume' : Script ρ Answer δ → Script ρ Answer ζ} {alone : γ → Script ρ Answer ε}
    {alone' : δ → Script ρ Answer ζ} (ht : t.Alike L S t')
    (hresume : ∀ t t', t.Alike L S t' → (resume t).Alike L T (resume' t'))
    (halone : ∀ c d, S c d → (alone c).Alike L T (alone' d)) :
    (t.whilePaused resume alone).Alike L T (t'.whilePaused resume' alone') := by
  induction t generalizing t' with
  | done b => cases t' <;> first | exact halone _ _ ht | exact ht.elim
  | ask r next ih =>
    cases t' <;> first | exact ⟨ht.1, fun x x' hx => ih x (ht.2 x x' hx)⟩ | exact ht.elim
  | poll deadline next ih =>
    cases t' <;> first | exact fun x hd => ih x (ht x hd) | exact ht.elim
  | pause next _ => cases t' <;> first | exact hresume _ _ ht | exact ht.elim
  | sleep deadline next _ => cases t' <;> first | exact hresume _ _ ht | exact ht.elim

theorem Alike.whileAsleep {T : ε → ζ → Prop} {limit limit' : Nat}
    {wake : Bool → Script ρ Answer γ → Script ρ Answer ε}
    {wake' : Bool → Script ρ Answer δ → Script ρ Answer ζ} {alone : γ → Script ρ Answer ε}
    {alone' : δ → Script ρ Answer ζ} (ht : t.Alike L S t') (hlimit : L.deadlines limit limit')
    (hwake : ∀ x t t', t.Alike L S t' → (wake x t).Alike L T (wake' x t'))
    (halone : ∀ c d, S c d → (alone c).Alike L T (alone' d)) :
    (t.whileAsleep limit wake alone).Alike L T (t'.whileAsleep limit' wake' alone') := by
  induction t generalizing t' with
  | done b => cases t' <;> first | exact halone _ _ ht | exact ht.elim
  | ask r next ih =>
    cases t' <;> first | exact ⟨ht.1, fun x x' hx => ih x (ht.2 x x' hx)⟩ | exact ht.elim
  | poll deadline next ih =>
    cases t' <;> first | exact fun x hd => ih x (ht x hd) | exact ht.elim
  | pause next ih =>
    cases t' with
    | pause next' =>
      rintro (_ | x) -
      · exact ih ht
      · exact hwake x _ _ ht
    | _ => exact ht.elim
  | sleep deadline next ih =>
    cases t' with
    | sleep deadline' next' =>
      -- which of the two sleeps ends first is the same on both sides
      refine ⟨Likeness.min_deadlines hlimit ht.1, fun x => ?_⟩
      have hle : decide (limit ≤ deadline) = decide (limit' ≤ deadline') :=
        decide_eq_decide.2 (L.le_iff hlimit ht.1)
      dsimp only
      rw [hle]
      split
      · exact hwake x _ _ ht
      · exact ih false (ht.2 false)
    | _ => exact ht.elim

/-- **Side by side** scripts stay alike. -/
theorem Alike.both (hs : s.Alike L R s') (ht : t.Alike L S t') :
    (s.both t).Alike L (fun p q => R p.1 q.1 ∧ S p.2 q.2) (s'.both t') := by
  induction s generalizing s' t t' with
  | done a =>
    cases s' with
    | done b =>
      rw [both_done_left, both_done_left]
      exact ht.atTurn fun t t' ht => ht.mapResult fun c d hcd => ⟨hs, hcd⟩
    | _ => exact hs.elim
  | ask r next ih =>
    cases s' with
    | ask r' next' =>
      rw [both_ask_left, both_ask_left]
      exact ⟨hs.1, fun x x' hx => ih x (hs.2 x x' hx) ht⟩
    | _ => exact hs.elim
  | poll deadline next ih =>
    cases s' with
    | poll deadline' next' =>
      rw [Script.both, Script.both]
      exact fun x hd => ih x (hs x hd) ht
    | _ => exact hs.elim
  | pause next ih =>
    cases s' with
    | pause next' =>
      rw [Script.both, Script.both]
      exact ht.atTurn fun t t' ht => ht.whilePaused (fun t t' ht => ih hs ht) fun c d hcd =>
        hs.mapResult fun a b hab => ⟨hab, hcd⟩
    | _ => exact hs.elim
  | sleep deadline next ih =>
    cases s' with
    | sleep deadline' next' =>
      rw [Script.both, Script.both]
      exact ht.atTurn fun t t' ht => ht.whileAsleep hs.1 (fun x t t' ht => ih x (hs.2 x) ht)
        fun c d hcd => ⟨hs.1, fun x => (hs.2 x).mapResult fun a b hab => ⟨hab, hcd⟩⟩
    | _ => exact hs.elim

/-- And so do many. -/
theorem alike_all {ss : List (Script ρ Answer α)} {ss' : List (Script ρ Answer β)}
    (h : List.Forall₂ (Alike L R) ss ss') : (all ss).Alike L (List.Forall₂ R) (all ss') := by
  induction h with
  | nil => exact .nil
  | cons hs _ ih => exact (hs.both ih).mapResult fun p q hpq => .cons hpq.1 hpq.2

end Script

end Stepflow
