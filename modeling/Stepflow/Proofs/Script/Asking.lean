import Stepflow.Proofs.Script.History
import Stepflow.Script.Basic

/-!
# What scripts can ask

`AsksOnly` bounds the requests of a script, whatever the answers are. The bound is read off the script
by recursion, so it holds of a script put together from others as soon as it holds of the parts, also
where they run side by side.

A script is `Prompt` if it is done or begins with a request. One that is prompt and asks nothing has
nothing to wait for either: it is done.
-/

namespace Stepflow.Script

variable {ρ : Type} {Answer : ρ → Type} {α β γ : Type} {p q : ρ → Prop}

/-- **Every request that the script can make has a property.** -/
def AsksOnly (p : ρ → Prop) : Script ρ Answer α → Prop
  | .done _ => True
  | .ask r next => p r ∧ ∀ x, AsksOnly p (next x)
  | .poll _ next => ∀ x, AsksOnly p (next x)
  | .pause next => AsksOnly p next
  | .sleep _ next => ∀ x, AsksOnly p (next x)

theorem AsksOnly.mono {s : Script ρ Answer α} (hs : s.AsksOnly p) (h : ∀ r, p r → q r) :
    s.AsksOnly q := by
  induction s with
  | done a => trivial
  | ask r next ih => exact ⟨h r hs.1, fun x => ih x (hs.2 x)⟩
  | poll deadline next ih => exact fun x => ih x (hs x)
  | pause next ih => exact ih hs
  | sleep deadline next ih => exact fun x => ih x (hs x)

theorem asksOnly_of_forall (h : ∀ r, p r) (s : Script ρ Answer α) : s.AsksOnly p := by
  induction s with
  | done a => trivial
  | ask r next ih => exact ⟨h r, ih⟩
  | poll deadline next ih => exact ih
  | pause next ih => exact ih
  | sleep deadline next ih => exact ih

/-- What a script exchanges it can ask. -/
theorem AsksOnly.of_traces {s : Script ρ Answer α} {t : List (Exchange ρ Answer)} {a : α}
    (hs : s.AsksOnly p) (ht : s.Traces t a) : ∀ e ∈ t, p e.request := by
  obtain ⟨h, u, rfl⟩ := ht
  induction u with
  | done a => simp
  | ask x _ ih =>
    intro e he
    rw [exchanges_asked, List.mem_cons] at he
    obtain rfl | he := he
    · exact hs.1
    · exact ih (hs.2 x) e he
  | poll x _ ih => exact ih (hs x)
  | pause _ ih => exact ih hs
  | sleep x _ ih => exact ih (hs x)

/-- What is left of a script on the way asks no more than the script. -/
theorem AsksOnly.of_leads {s s' : Script ρ Answer α} {h : History ρ Answer} (hs : s.AsksOnly p)
    (l : s.Leads h s') : s'.AsksOnly p := by
  induction l with
  | here s => exact hs
  | ask x _ ih => exact ih (hs.2 x)
  | poll x _ ih => exact ih (hs x)
  | pause _ ih => exact ih hs
  | sleep x _ ih => exact ih (hs x)

/-- Nor did a script ask more on the way. -/
theorem AsksOnly.of_exchanges {s s' : Script ρ Answer α} {h : History ρ Answer} (hs : s.AsksOnly p)
    (l : s.Leads h s') : ∀ e ∈ exchanges h, p e.request := by
  induction l with
  | here s => simp
  | ask x _ ih =>
    intro e he
    rw [exchanges_asked, List.mem_cons] at he
    obtain rfl | he := he
    · exact hs.1
    · exact ih (hs.2 x) e he
  | poll x _ ih => exact ih (hs x)
  | pause _ ih => exact ih hs
  | sleep x _ ih => exact ih (hs x)

/-! ## Parts and wholes -/

theorem AsksOnly.andThen {s : Script ρ Answer α} {f : α → Script ρ Answer β} (hs : s.AsksOnly p)
    (hf : ∀ a, (f a).AsksOnly p) : (s.andThen f).AsksOnly p := by
  induction s with
  | done a => exact hf a
  | ask r next ih => exact ⟨hs.1, fun x => ih x (hs.2 x)⟩
  | poll deadline next ih => exact fun x => ih x (hs x)
  | pause next ih => exact ih hs
  | sleep deadline next ih => exact fun x => ih x (hs x)

theorem asksOnly_request {r : ρ} : (request r : Script ρ Answer (Answer r)).AsksOnly p ↔ p r :=
  ⟨fun h => h.1, fun h => ⟨h, fun _ => trivial⟩⟩

theorem asksOnly_pauses (n : Nat) : (pauses n : Script ρ Answer Unit).AsksOnly p := by
  induction n with
  | zero => trivial
  | succ n ih => exact ih

theorem asksOnly_sleepUntil (deadline : Nat) :
    (sleepUntil deadline : Script ρ Answer Bool).AsksOnly p := by
  rintro (_ | x)
  · exact fun _ => trivial
  · trivial

theorem AsksOnly.mapResult {f : α → β} {s : Script ρ Answer α} (hs : s.AsksOnly p) :
    (s.mapResult f).AsksOnly p := hs.andThen fun _ => trivial

theorem AsksOnly.atTurn {go : Script ρ Answer β → Script ρ Answer γ} {t : Script ρ Answer β}
    (ht : t.AsksOnly p) (hgo : ∀ t, t.AsksOnly p → (go t).AsksOnly p) :
    (t.atTurn go).AsksOnly p := by
  cases t with
  | sleep deadline next =>
    rintro (_ | x)
    · exact hgo _ ht
    · exact hgo _ (ht x)
  | done b => exact hgo _ ht
  | ask r next => exact hgo _ ht
  | poll deadline next => exact hgo _ ht
  | pause next => exact hgo _ ht

theorem AsksOnly.whilePaused {resume : Script ρ Answer β → Script ρ Answer γ}
    {alone : β → Script ρ Answer γ} {t : Script ρ Answer β} (ht : t.AsksOnly p)
    (hresume : ∀ t, t.AsksOnly p → (resume t).AsksOnly p) (halone : ∀ b, (alone b).AsksOnly p) :
    (t.whilePaused resume alone).AsksOnly p := by
  induction t with
  | done b => exact halone b
  | ask r next ih => exact ⟨ht.1, fun x => ih x (ht.2 x)⟩
  | poll deadline next ih => exact fun x => ih x (ht x)
  | pause next _ => exact hresume _ ht
  | sleep deadline next _ => exact hresume _ ht

theorem AsksOnly.whileAsleep {limit : Nat} {wake : Bool → Script ρ Answer β → Script ρ Answer γ}
    {alone : β → Script ρ Answer γ} {t : Script ρ Answer β} (ht : t.AsksOnly p)
    (hwake : ∀ x t, t.AsksOnly p → (wake x t).AsksOnly p) (halone : ∀ b, (alone b).AsksOnly p) :
    (t.whileAsleep limit wake alone).AsksOnly p := by
  induction t with
  | done b => exact halone b
  | ask r next ih => exact ⟨ht.1, fun x => ih x (ht.2 x)⟩
  | poll deadline next ih => exact fun x => ih x (ht x)
  | pause next ih =>
    rintro (_ | x)
    · exact ih ht
    · exact hwake x _ ht
  | sleep deadline next ih =>
    intro x
    dsimp only
    split
    · exact hwake x _ ht
    · exact ih false (ht false)

/-- **Side by side**, two scripts ask no more than each alone. -/
theorem AsksOnly.both {s : Script ρ Answer α} {t : Script ρ Answer β} (hs : s.AsksOnly p)
    (ht : t.AsksOnly p) : (s.both t).AsksOnly p := by
  induction s generalizing t with
  | done a =>
    rw [both_done_left]
    exact ht.atTurn fun _ => .mapResult
  | ask r next ih =>
    rw [both_ask_left]
    exact ⟨hs.1, fun x => ih x (hs.2 x) ht⟩
  | poll deadline next ih =>
    rw [Script.both]
    exact fun x => ih x (hs x) ht
  | pause next ih =>
    rw [Script.both]
    exact ht.atTurn fun _ h => h.whilePaused (fun _ => ih hs) fun _ => .mapResult hs
  | sleep deadline next ih =>
    rw [Script.both]
    exact ht.atTurn fun _ h => h.whileAsleep (fun x _ => ih x (hs x)) fun _ x => .mapResult (hs x)

/-- And so do many. -/
theorem asksOnly_all {ss : List (Script ρ Answer α)} (h : ∀ s ∈ ss, s.AsksOnly p) :
    (all ss).AsksOnly p := by
  induction ss with
  | nil => trivial
  | cons s rest ih =>
    have hrest := ih fun s hs => h s (List.mem_cons_of_mem _ hs)
    exact ((h s List.mem_cons_self).both hrest).mapResult

/-! ## Prompt scripts -/

/-- The script is done, or begins with a request. -/
def Prompt : Script ρ Answer α → Prop
  | .done _ | .ask .. => True
  | .poll .. | .pause _ | .sleep .. => False

/-- **A prompt script that asks nothing is done.** -/
theorem Prompt.eq_done {s : Script ρ Answer α} {a : α} (hs : s.Prompt) (ht : s.Traces [] a) :
    s = .done a := by
  cases s with
  | done b => rw [(traces_done.1 ht).2]
  | ask r next => simp [traces_ask] at ht
  | poll deadline next => exact hs.elim
  | pause next => exact hs.elim
  | sleep deadline next => exact hs.elim

theorem Prompt.andThen {s : Script ρ Answer α} {f : α → Script ρ Answer β} (hs : s.Prompt)
    (hf : ∀ a, (f a).Prompt) : (s.andThen f).Prompt := by
  cases s with
  | done a => exact hf a
  | ask r next => trivial
  | poll deadline next => exact hs.elim
  | pause next => exact hs.elim
  | sleep deadline next => exact hs.elim

theorem Prompt.both {s : Script ρ Answer α} {t : Script ρ Answer β} (hs : s.Prompt)
    (ht : t.Prompt) : (s.both t).Prompt := by
  cases s with
  | done a =>
    rw [both_done_left]
    cases t with
    | done b => trivial
    | ask r next => trivial
    | poll deadline next => exact ht.elim
    | pause next => exact ht.elim
    | sleep deadline next => exact ht.elim
  | ask r next =>
    rw [both_ask_left]
    trivial
  | poll deadline next => exact hs.elim
  | pause next => exact hs.elim
  | sleep deadline next => exact hs.elim

theorem prompt_all {ss : List (Script ρ Answer α)} (h : ∀ s ∈ ss, s.Prompt) : (all ss).Prompt := by
  induction ss with
  | nil => trivial
  | cons s rest ih =>
    have hrest := ih fun s hs => h s (List.mem_cons_of_mem _ hs)
    exact ((h s List.mem_cons_self).both hrest).andThen fun _ => trivial

/-- The script begins with a request, so it does not go on before it is answered. -/
def AsksFirst : Script ρ Answer α → Prop
  | .ask .. => True
  | .done _ | .poll .. | .pause _ | .sleep .. => False

theorem AsksFirst.eq_ask {s : Script ρ Answer α} (hs : s.AsksFirst) : ∃ r next, s = .ask r next := by
  cases s with
  | ask r next => exact ⟨r, next, rfl⟩
  | done a => exact hs.elim
  | poll deadline next => exact hs.elim
  | pause next => exact hs.elim
  | sleep deadline next => exact hs.elim

theorem AsksFirst.andThen {s : Script ρ Answer α} {f : α → Script ρ Answer β} (hs : s.AsksFirst) :
    (s.andThen f).AsksFirst := by
  obtain ⟨r, next, rfl⟩ := hs.eq_ask
  trivial

theorem AsksFirst.whilePaused {resume : Script ρ Answer β → Script ρ Answer γ}
    {alone : β → Script ρ Answer γ} {t : Script ρ Answer β} (ht : t.AsksFirst) :
    (Script.whilePaused resume alone t).AsksFirst := by
  obtain ⟨r, next, rfl⟩ := ht.eq_ask
  trivial

theorem AsksFirst.whileAsleep {limit : Nat} {wake : Bool → Script ρ Answer β → Script ρ Answer γ}
    {alone : β → Script ρ Answer γ} {t : Script ρ Answer β} (ht : t.AsksFirst) :
    (Script.whileAsleep limit wake alone t).AsksFirst := by
  obtain ⟨r, next, rfl⟩ := ht.eq_ask
  trivial

theorem AsksFirst.both {s : Script ρ Answer α} {t : Script ρ Answer β} (hs : s.AsksFirst) :
    (s.both t).AsksFirst := by
  obtain ⟨r, next, rfl⟩ := hs.eq_ask
  rw [both_ask_left]
  trivial

end Stepflow.Script
