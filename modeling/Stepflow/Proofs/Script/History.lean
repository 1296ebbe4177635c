import Stepflow.Script.Basic

/-!
# Histories of scripts

What a script does is decided by the script and the answers it gets. A history lists both, turn by
turn; `Unfolds` says that a script has a history and ends with a result, for whatever answers.
`Traces` keeps of the history only the requests that were answered, in order, and `Leads` stops on the
way and says which script is left. All are compositional: a script that goes on with another has the
histories of the one followed by those of the other.
-/

namespace Stepflow.Script

variable {ρ : Type} {Answer : ρ → Type} {α β : Type}

/-- A request with its answer. -/
structure Exchange (ρ : Type) (Answer : ρ → Type) where
  /-- The request. -/
  request : ρ
  /-- The answer. -/
  answer : Answer request

/-- A turn of a script at which something is answered. -/
inductive Turn (ρ : Type) (Answer : ρ → Type) where
  /-- A request is answered. -/
  | asked (e : Exchange ρ Answer)
  /-- It is answered whether a sleep is over. -/
  | polled (deadline : Nat) (ended : Option Bool)
  /-- A sleep ends. -/
  | slept (deadline : Nat) (cancelled : Bool)

/-- The exchange of a turn, if it has one. -/
def Turn.exchange? : Turn ρ Answer → Option (Exchange ρ Answer)
  | .asked e => some e
  | .polled .. | .slept .. => none

/-- The turns of a script, in order. -/
abbrev History (ρ : Type) (Answer : ρ → Type) := List (Turn ρ Answer)

/-- The exchanges of a history, in order. -/
def exchanges (h : History ρ Answer) : List (Exchange ρ Answer) := h.filterMap Turn.exchange?

/-- **What a script does**: it has a history and ends with a result. -/
inductive Unfolds : Script ρ Answer α → History ρ Answer → α → Prop
  | done (a : α) : Unfolds (.done a) [] a
  | ask {r : ρ} {next : Answer r → Script ρ Answer α} {h a} (x : Answer r) :
      Unfolds (next x) h a → Unfolds (.ask r next) (.asked ⟨r, x⟩ :: h) a
  | poll {deadline : Nat} {next : Option Bool → Script ρ Answer α} {h a} (x : Option Bool) :
      Unfolds (next x) h a → Unfolds (.poll deadline next) (.polled deadline x :: h) a
  | pause {next : Script ρ Answer α} {h a} : Unfolds next h a → Unfolds (.pause next) h a
  | sleep {deadline : Nat} {next : Bool → Script ρ Answer α} {h a} (x : Bool) :
      Unfolds (next x) h a → Unfolds (.sleep deadline next) (.slept deadline x :: h) a

/-- **What is left of a script** after a history: another script. -/
inductive Leads : Script ρ Answer α → History ρ Answer → Script ρ Answer α → Prop
  | here (s : Script ρ Answer α) : Leads s [] s
  | ask {r : ρ} {next : Answer r → Script ρ Answer α} {h s} (x : Answer r) :
      Leads (next x) h s → Leads (.ask r next) (.asked ⟨r, x⟩ :: h) s
  | poll {deadline : Nat} {next : Option Bool → Script ρ Answer α} {h s} (x : Option Bool) :
      Leads (next x) h s → Leads (.poll deadline next) (.polled deadline x :: h) s
  | pause {next : Script ρ Answer α} {h s} : Leads next h s → Leads (.pause next) h s
  | sleep {deadline : Nat} {next : Bool → Script ρ Answer α} {h s} (x : Bool) :
      Leads (next x) h s → Leads (.sleep deadline next) (.slept deadline x :: h) s

/-- A script makes these exchanges and ends with a result. -/
def Traces (s : Script ρ Answer α) (t : List (Exchange ρ Answer)) (a : α) : Prop :=
  ∃ h, s.Unfolds h a ∧ exchanges h = t

@[simp] theorem exchanges_nil : exchanges ([] : History ρ Answer) = [] := rfl

@[simp] theorem exchanges_append (h k : History ρ Answer) :
    exchanges (h ++ k) = exchanges h ++ exchanges k := List.filterMap_append

@[simp] theorem exchanges_asked (e : Exchange ρ Answer) (h : History ρ Answer) :
    exchanges (.asked e :: h) = e :: exchanges h := rfl

@[simp] theorem exchanges_polled (deadline : Nat) (x : Option Bool) (h : History ρ Answer) :
    exchanges (.polled deadline x :: h) = exchanges h := rfl

@[simp] theorem exchanges_slept (deadline : Nat) (x : Bool) (h : History ρ Answer) :
    exchanges (.slept deadline x :: h) = exchanges h := rfl

theorem Unfolds.traces {s : Script ρ Answer α} {h : History ρ Answer} {a : α}
    (u : s.Unfolds h a) : s.Traces (exchanges h) a := ⟨h, u, rfl⟩

/-! ## One constructor at a time -/

@[simp] theorem unfolds_done {a b : α} {h : History ρ Answer} :
    (Script.done a : Script ρ Answer α).Unfolds h b ↔ h = [] ∧ b = a := by
  constructor
  · rintro ⟨⟩
    exact ⟨rfl, rfl⟩
  · rintro ⟨rfl, rfl⟩
    exact .done _

theorem unfolds_ask {r : ρ} {next : Answer r → Script ρ Answer α} {h : History ρ Answer} {a : α} :
    (Script.ask r next).Unfolds h a ↔ ∃ x k, (next x).Unfolds k a ∧ h = .asked ⟨r, x⟩ :: k := by
  constructor
  · rintro (_ | ⟨x, u⟩)
    exact ⟨x, _, u, rfl⟩
  · rintro ⟨x, k, u, rfl⟩
    exact .ask x u

/-- A script that begins with a request is answered first. -/
theorem Unfolds.of_ask {r : ρ} {next : Answer r → Script ρ Answer α} {turn : Turn ρ Answer}
    {h : History ρ Answer} {a : α} (u : (Script.ask r next).Unfolds (turn :: h) a) :
    ∃ x, turn = .asked ⟨r, x⟩ ∧ (next x).Unfolds h a := by
  cases u with
  | ask x u => exact ⟨x, rfl, u⟩

theorem Unfolds.of_asked {r : ρ} {next : Answer r → Script ρ Answer α} {x : Answer r}
    {h : History ρ Answer} {a : α} (u : (Script.ask r next).Unfolds (.asked ⟨r, x⟩ :: h) a) :
    (next x).Unfolds h a := by
  cases u with
  | ask x u => exact u

theorem unfolds_poll {deadline : Nat} {next : Option Bool → Script ρ Answer α}
    {h : History ρ Answer} {a : α} :
    (Script.poll deadline next).Unfolds h a ↔
      ∃ x k, (next x).Unfolds k a ∧ h = .polled deadline x :: k := by
  constructor
  · rintro (_ | _ | ⟨x, u⟩)
    exact ⟨x, _, u, rfl⟩
  · rintro ⟨x, k, u, rfl⟩
    exact .poll x u

@[simp] theorem unfolds_pause {next : Script ρ Answer α} {h : History ρ Answer} {a : α} :
    (Script.pause next).Unfolds h a ↔ next.Unfolds h a := by
  constructor
  · rintro ⟨⟩
    assumption
  · exact .pause

theorem unfolds_sleep {deadline : Nat} {next : Bool → Script ρ Answer α}
    {h : History ρ Answer} {a : α} :
    (Script.sleep deadline next).Unfolds h a ↔
      ∃ x k, (next x).Unfolds k a ∧ h = .slept deadline x :: k := by
  constructor
  · rintro (_ | _ | _ | _ | ⟨x, u⟩)
    exact ⟨x, _, u, rfl⟩
  · rintro ⟨x, k, u, rfl⟩
    exact .sleep x u

@[simp] theorem traces_done {a b : α} {t : List (Exchange ρ Answer)} :
    (Script.done a : Script ρ Answer α).Traces t b ↔ t = [] ∧ b = a := by
  constructor
  · rintro ⟨h, u, rfl⟩
    obtain ⟨rfl, rfl⟩ := unfolds_done.1 u
    exact ⟨rfl, rfl⟩
  · rintro ⟨rfl, rfl⟩
    exact ⟨[], .done _, rfl⟩

theorem traces_done_pair {a c : α} {b d : β} {t : List (Exchange ρ Answer)} :
    (Script.done (a, b) : Script ρ Answer (α × β)).Traces t (c, d) ↔ t = [] ∧ c = a ∧ d = b := by
  rw [traces_done, Prod.mk.injEq]

theorem traces_ask {r : ρ} {next : Answer r → Script ρ Answer α} {t : List (Exchange ρ Answer)}
    {a : α} : (Script.ask r next).Traces t a ↔ ∃ x u, (next x).Traces u a ∧ t = ⟨r, x⟩ :: u := by
  constructor
  · rintro ⟨h, u, rfl⟩
    obtain ⟨x, k, v, rfl⟩ := unfolds_ask.1 u
    exact ⟨x, _, v.traces, rfl⟩
  · rintro ⟨x, u, ⟨h, v, rfl⟩, rfl⟩
    exact ⟨_, .ask x v, rfl⟩

theorem traces_poll {deadline : Nat} {next : Option Bool → Script ρ Answer α}
    {t : List (Exchange ρ Answer)} {a : α} :
    (Script.poll deadline next).Traces t a ↔ ∃ x, (next x).Traces t a := by
  constructor
  · rintro ⟨h, u, rfl⟩
    obtain ⟨x, k, v, rfl⟩ := unfolds_poll.1 u
    exact ⟨x, v.traces⟩
  · rintro ⟨x, h, v, rfl⟩
    exact ⟨_, .poll x v, rfl⟩

@[simp] theorem traces_pause {next : Script ρ Answer α} {t : List (Exchange ρ Answer)} {a : α} :
    (Script.pause next).Traces t a ↔ next.Traces t a := by
  simp only [Traces, unfolds_pause]

theorem traces_sleep {deadline : Nat} {next : Bool → Script ρ Answer α}
    {t : List (Exchange ρ Answer)} {a : α} :
    (Script.sleep deadline next).Traces t a ↔ ∃ x, (next x).Traces t a := by
  constructor
  · rintro ⟨h, u, rfl⟩
    obtain ⟨x, k, v, rfl⟩ := unfolds_sleep.1 u
    exact ⟨x, v.traces⟩
  · rintro ⟨x, h, v, rfl⟩
    exact ⟨_, .sleep x v, rfl⟩

/-! ## Going on -/

/-- **A script that goes on** has a history of the first part and then one of the rest. -/
theorem unfolds_andThen {s : Script ρ Answer α} {f : α → Script ρ Answer β}
    {h : History ρ Answer} {b : β} :
    (s.andThen f).Unfolds h b ↔
      ∃ h₁ h₂ a, s.Unfolds h₁ a ∧ (f a).Unfolds h₂ b ∧ h = h₁ ++ h₂ := by
  constructor
  · intro u
    induction s generalizing h with
    | done a => exact ⟨[], h, a, .done a, u, rfl⟩
    | ask r next ih =>
      obtain ⟨x, k, v, rfl⟩ := unfolds_ask.1 u
      obtain ⟨h₁, h₂, a, u₁, u₂, rfl⟩ := ih x v
      exact ⟨_, h₂, a, .ask x u₁, u₂, rfl⟩
    | poll deadline next ih =>
      obtain ⟨x, k, v, rfl⟩ := unfolds_poll.1 u
      obtain ⟨h₁, h₂, a, u₁, u₂, rfl⟩ := ih x v
      exact ⟨_, h₂, a, .poll x u₁, u₂, rfl⟩
    | pause next ih =>
      obtain ⟨h₁, h₂, a, u₁, u₂, rfl⟩ := ih (unfolds_pause.1 u)
      exact ⟨h₁, h₂, a, .pause u₁, u₂, rfl⟩
    | sleep deadline next ih =>
      obtain ⟨x, k, v, rfl⟩ := unfolds_sleep.1 u
      obtain ⟨h₁, h₂, a, u₁, u₂, rfl⟩ := ih x v
      exact ⟨_, h₂, a, .sleep x u₁, u₂, rfl⟩
  · rintro ⟨h₁, h₂, a, u₁, u₂, rfl⟩
    induction u₁ with
    | done a => exact u₂
    | ask x _ ih => exact .ask x (ih u₂)
    | poll x _ ih => exact .poll x (ih u₂)
    | pause _ ih => exact .pause (ih u₂)
    | sleep x _ ih => exact .sleep x (ih u₂)

/-- Where nothing is left to do, the first part is all. -/
theorem Unfolds.andThen_done {s : Script ρ Answer α} {f : α → Script ρ Answer β}
    {h : History ρ Answer} {a : α} {b : β} (u : s.Unfolds h a) (hf : f a = .done b) :
    (s.andThen f).Unfolds h b :=
  unfolds_andThen.2 ⟨h, [], a, u, hf ▸ .done b, (List.append_nil h).symm⟩

theorem unfolds_andThen_done {s : Script ρ Answer α} {f : α → β} {h : History ρ Answer} {b : β} :
    (s.andThen fun a => .done (f a)).Unfolds h b ↔ ∃ a, s.Unfolds h a ∧ b = f a := by
  constructor
  · intro u
    obtain ⟨h₁, h₂, a, u₁, u₂, rfl⟩ := unfolds_andThen.1 u
    obtain ⟨rfl, hb⟩ := unfolds_done.1 u₂
    rw [List.append_nil]
    exact ⟨a, u₁, hb⟩
  · rintro ⟨a, u, rfl⟩
    exact u.andThen_done rfl

/-- And so it is for the exchanges. -/
theorem traces_andThen {s : Script ρ Answer α} {f : α → Script ρ Answer β}
    {t : List (Exchange ρ Answer)} {b : β} :
    (s.andThen f).Traces t b ↔ ∃ t₁ t₂ a, s.Traces t₁ a ∧ (f a).Traces t₂ b ∧ t = t₁ ++ t₂ := by
  constructor
  · rintro ⟨h, u, rfl⟩
    obtain ⟨h₁, h₂, a, u₁, u₂, rfl⟩ := unfolds_andThen.1 u
    exact ⟨_, _, a, u₁.traces, u₂.traces, exchanges_append h₁ h₂⟩
  · rintro ⟨t₁, t₂, a, ⟨h₁, u₁, rfl⟩, ⟨h₂, u₂, rfl⟩, rfl⟩
    exact ⟨h₁ ++ h₂, unfolds_andThen.2 ⟨h₁, h₂, a, u₁, u₂, rfl⟩, exchanges_append h₁ h₂⟩

/-- **On the way through a script that goes on**, either something of the first part is left, or the
first part has ended and something of the rest is left. -/
theorem leads_andThen {s : Script ρ Answer α} {f : α → Script ρ Answer β} {h : History ρ Answer}
    {s' : Script ρ Answer β} (l : (s.andThen f).Leads h s') :
    (∃ s₁, s.Leads h s₁ ∧ s' = s₁.andThen f) ∨
      ∃ h₁ h₂ a, s.Unfolds h₁ a ∧ (f a).Leads h₂ s' ∧ h = h₁ ++ h₂ := by
  induction s generalizing h with
  | done a => exact .inr ⟨[], h, a, .done a, l, rfl⟩
  | ask r next ih =>
    obtain _ | ⟨x, l⟩ := l
    · exact .inl ⟨_, .here _, rfl⟩
    · obtain ⟨s₁, l₁, rfl⟩ | ⟨h₁, h₂, a, u, l₂, rfl⟩ := ih x l
      · exact .inl ⟨s₁, .ask x l₁, rfl⟩
      · exact .inr ⟨_, h₂, a, .ask x u, l₂, rfl⟩
  | poll deadline next ih =>
    obtain _ | _ | ⟨x, l⟩ := l
    · exact .inl ⟨_, .here _, rfl⟩
    · obtain ⟨s₁, l₁, rfl⟩ | ⟨h₁, h₂, a, u, l₂, rfl⟩ := ih x l
      · exact .inl ⟨s₁, .poll x l₁, rfl⟩
      · exact .inr ⟨_, h₂, a, .poll x u, l₂, rfl⟩
  | pause next ih =>
    obtain _ | _ | _ | l := l
    · exact .inl ⟨_, .here _, rfl⟩
    · obtain ⟨s₁, l₁, rfl⟩ | ⟨h₁, h₂, a, u, l₂, rfl⟩ := ih l
      · exact .inl ⟨s₁, .pause l₁, rfl⟩
      · exact .inr ⟨h₁, h₂, a, .pause u, l₂, rfl⟩
  | sleep deadline next ih =>
    obtain _ | _ | _ | _ | ⟨x, l⟩ := l
    · exact .inl ⟨_, .here _, rfl⟩
    · obtain ⟨s₁, l₁, rfl⟩ | ⟨h₁, h₂, a, u, l₂, rfl⟩ := ih x l
      · exact .inl ⟨s₁, .sleep x l₁, rfl⟩
      · exact .inr ⟨_, h₂, a, .sleep x u, l₂, rfl⟩

/-- A script that leads to one that is done has ended. -/
theorem Leads.unfolds_done {s : Script ρ Answer α} {h : History ρ Answer} {a : α}
    (l : s.Leads h (.done a)) : s.Unfolds h a := by
  generalize hs : (Script.done a : Script ρ Answer α) = s' at l
  induction l with
  | here s =>
    subst hs
    exact .done a
  | ask x _ ih => exact .ask x (ih hs)
  | poll x _ ih => exact .poll x (ih hs)
  | pause _ ih => exact .pause (ih hs)
  | sleep x _ ih => exact .sleep x (ih hs)

/-- What is left goes on to the end. -/
theorem Leads.unfolds {s s' : Script ρ Answer α} {h k : History ρ Answer} {a : α} (l : s.Leads h s')
    (u : s'.Unfolds k a) : s.Unfolds (h ++ k) a := by
  induction l with
  | here => exact u
  | ask x _ ih => exact .ask x (ih u)
  | poll x _ ih => exact .poll x (ih u)
  | pause _ ih => exact .pause (ih u)
  | sleep x _ ih => exact .sleep x (ih u)

/-- And wherever a history is divided, some script is left. -/
theorem Unfolds.leads {s : Script ρ Answer α} {h k : History ρ Answer} {a : α}
    (u : s.Unfolds (h ++ k) a) : ∃ s', s.Leads h s' ∧ s'.Unfolds k a := by
  generalize heq : h ++ k = l at u
  induction u generalizing h with
  | done a =>
    obtain ⟨rfl, rfl⟩ := List.append_eq_nil_iff.1 heq
    exact ⟨_, .here _, .done a⟩
  | ask x u ih =>
    obtain ⟨rfl, rfl⟩ | ⟨h, rfl, rfl⟩ := List.append_eq_cons_iff.1 heq
    · exact ⟨_, .here _, .ask x u⟩
    · obtain ⟨s', l, u'⟩ := ih rfl
      exact ⟨s', .ask x l, u'⟩
  | poll x u ih =>
    obtain ⟨rfl, rfl⟩ | ⟨h, rfl, rfl⟩ := List.append_eq_cons_iff.1 heq
    · exact ⟨_, .here _, .poll x u⟩
    · obtain ⟨s', l, u'⟩ := ih rfl
      exact ⟨s', .poll x l, u'⟩
  | pause _ ih =>
    obtain ⟨s', l, u'⟩ := ih heq
    exact ⟨s', .pause l, u'⟩
  | sleep x u ih =>
    obtain ⟨rfl, rfl⟩ | ⟨h, rfl, rfl⟩ := List.append_eq_cons_iff.1 heq
    · exact ⟨_, .here _, .sleep x u⟩
    · obtain ⟨s', l, u'⟩ := ih rfl
      exact ⟨s', .sleep x l, u'⟩

/-- What is left leads on. -/
theorem Leads.trans {s s' s'' : Script ρ Answer α} {h k : History ρ Answer} (l : s.Leads h s')
    (l' : s'.Leads k s'') : s.Leads (h ++ k) s'' := by
  induction l with
  | here s => exact l'
  | ask x _ ih => exact .ask x (ih l')
  | poll x _ ih => exact .poll x (ih l')
  | pause _ ih => exact .pause (ih l')
  | sleep x _ ih => exact .sleep x (ih l')

/-- A script that is done asks for nothing. -/
theorem not_leads_ask {a : α} {h : History ρ Answer} {r : ρ} {next : Answer r → Script ρ Answer α} :
    ¬ (Script.done a : Script ρ Answer α).Leads h (.ask r next) := by
  rintro ⟨⟩

/-- **A request on the way through a script that goes on** is one of the first part or one of the
rest. -/
theorem leads_andThen_ask {s : Script ρ Answer α} {f : α → Script ρ Answer β}
    {h : History ρ Answer} {r : ρ} {next : Answer r → Script ρ Answer β}
    (l : (s.andThen f).Leads h (.ask r next)) :
    (∃ next₁, s.Leads h (.ask r next₁) ∧ next = fun x => (next₁ x).andThen f) ∨
      ∃ h₁ h₂ a, s.Unfolds h₁ a ∧ (f a).Leads h₂ (.ask r next) ∧ h = h₁ ++ h₂ := by
  obtain ⟨s₁, l₁, hs⟩ | hrest := leads_andThen l
  · cases s₁ with
    | done a => exact .inr ⟨h, [], a, l₁.unfolds_done, hs ▸ .here _, (List.append_nil h).symm⟩
    | ask r' next₁ =>
      rw [andThen] at hs
      injection hs with hr hn
      subst hr
      exact .inl ⟨next₁, l₁, eq_of_heq hn⟩
    | poll deadline next₁ => cases hs
    | pause next₁ => cases hs
    | sleep deadline next₁ => cases hs
  · exact .inr hrest

/-- A single request leads to no other. -/
theorem leads_request_ask {r r' : ρ} {h : History ρ Answer}
    {next : Answer r' → Script ρ Answer (Answer r)}
    (l : (Script.request r).Leads h (.ask r' next)) :
    h = [] ∧ (Script.ask r' next : Script ρ Answer (Answer r)) = .request r := by
  rw [Script.request] at l
  obtain _ | ⟨x, l⟩ := l
  · exact ⟨rfl, rfl⟩
  · nomatch l

/-- A single request has one exchange, and ends with the answer. -/
@[simp] theorem traces_request {r : ρ} {t : List (Exchange ρ Answer)} {x : Answer r} :
    (Script.request r : Script ρ Answer (Answer r)).Traces t x ↔ t = [⟨r, x⟩] := by
  rw [Script.request, traces_ask]
  constructor
  · rintro ⟨y, u, hu, rfl⟩
    obtain ⟨rfl, rfl⟩ := traces_done.1 hu
    rfl
  · rintro rfl
    exact ⟨x, [], traces_done.2 ⟨rfl, rfl⟩, rfl⟩

/-- Giving way is no turn. -/
@[simp] theorem unfolds_pauses {n : Nat} {h : History ρ Answer} {a : Unit} :
    (pauses n : Script ρ Answer Unit).Unfolds h a ↔ h = [] := by
  induction n with
  | zero => simp [pauses]
  | succ n ih => simp [pauses, ih]

/-- So nothing is exchanged. -/
@[simp] theorem traces_pauses {n : Nat} {t : List (Exchange ρ Answer)} {a : Unit} :
    (pauses n : Script ρ Answer Unit).Traces t a ↔ t = [] := by
  simp [Traces, eq_comm]

/-! ## Following a script -/

/-- What a script does if its requests are answered by their number and kind, and every sleep is over
at once. -/
def follow (answer : Nat → (r : ρ) → Answer r) : Nat → Script ρ Answer α → History ρ Answer × α
  | _, .done a => ([], a)
  | n, .ask r next =>
    let u := follow answer (n + 1) (next (answer n r))
    (.asked ⟨r, answer n r⟩ :: u.1, u.2)
  | n, .poll deadline next =>
    let u := follow answer n (next (some false))
    (.polled deadline (some false) :: u.1, u.2)
  | n, .pause next => follow answer n next
  | n, .sleep deadline next =>
    let u := follow answer n (next false)
    (.slept deadline false :: u.1, u.2)

/-- **Every script can be followed to its end.** -/
theorem follow_unfolds (answer : Nat → (r : ρ) → Answer r) (n : Nat) (s : Script ρ Answer α) :
    s.Unfolds (follow answer n s).1 (follow answer n s).2 := by
  induction s generalizing n with
  | done a => exact .done a
  | ask r next ih => exact .ask _ (ih _ _)
  | poll deadline next ih => exact .poll _ (ih _ _)
  | pause next ih => exact .pause (ih n)
  | sleep deadline next ih => exact .sleep _ (ih _ _)

/-- The same up to the first request of a kind, and what is left of the script there. -/
def followTo (answer : Nat → (r : ρ) → Answer r) (stop : ρ → Bool) :
    Nat → Script ρ Answer α → History ρ Answer × Script ρ Answer α
  | _, .done a => ([], .done a)
  | n, .ask r next =>
    if stop r then ([], .ask r next)
    else
      let u := followTo answer stop (n + 1) (next (answer n r))
      (.asked ⟨r, answer n r⟩ :: u.1, u.2)
  | n, .poll deadline next =>
    let u := followTo answer stop n (next (some false))
    (.polled deadline (some false) :: u.1, u.2)
  | n, .pause next => followTo answer stop n next
  | n, .sleep deadline next =>
    let u := followTo answer stop n (next false)
    (.slept deadline false :: u.1, u.2)

theorem followTo_leads (answer : Nat → (r : ρ) → Answer r) (stop : ρ → Bool) (n : Nat)
    (s : Script ρ Answer α) :
    s.Leads (followTo answer stop n s).1 (followTo answer stop n s).2 := by
  induction s generalizing n with
  | done a => exact .here _
  | ask r next ih =>
    rw [followTo]
    split
    · exact .here _
    · exact .ask _ (ih _ _)
  | poll deadline next ih => exact .poll _ (ih _ _)
  | pause next ih => exact .pause (ih n)
  | sleep deadline next ih => exact .sleep _ (ih _ _)

end Stepflow.Script
