import Stepflow.Proofs.Run.Steadiness
import Stepflow.Proofs.Run.Undisturbed

/-!
# Runs that are settled

Let components reply by what they are given, and by nothing else, and let nothing be cancelled. Then it does
not matter how long anything takes, how often components give way, nor how the turns of what runs side by
side come to be interleaved: what a script comes to is settled, up to times. To be settled so is a congruence
of scripts, and so every step is.
-/

namespace Stepflow

open Script

variable {κ : Type} {α β : Type} {h k : History (Inquiry κ) Inquiry.Answer}

/-- The call of a component: where its name is looked up, the name, the component, and what it is given. -/
abbrev CallOf (κ : Type) : Type := Namespace × String × κ × Input

/-- The call that an entry begins, and the ticket for its reply. -/
def Entry.begun? : Entry κ → Option (CallOf κ × Nat)
  | ⟨⟨_, _, .begin space name component input⟩, call⟩ =>
    some ((space, name, component, input), call.ticket)
  | _ => none

/-- The reply that an entry collects, and its ticket. -/
def Entry.collected? : Entry κ → Option (Nat × Except String Reply)
  | ⟨⟨_, _, .collect ticket⟩, reply⟩ => some (ticket, reply)
  | _ => none

theorem Entry.begun?_into (l : Layer) (e : Entry κ) : (e.into l).begun? = e.begun? := by
  obtain ⟨⟨site, step, request⟩, answer⟩ := e
  cases request <;> rfl

theorem Entry.collected?_into (l : Layer) (e : Entry κ) : (e.into l).collected? = e.collected? := by
  obtain ⟨⟨site, step, request⟩, answer⟩ := e
  cases request <;> rfl

/-- **Components reply by what they are given**: what is collected for a call is what `f` says of it. -/
def Trace.RepliesBy (f : CallOf κ → Except String Reply) (t : Trace κ) : Prop :=
  ∀ b ∈ t, ∀ e ∈ t, ∀ call ticket reply, b.begun? = some (call, ticket) →
    e.collected? = some (ticket, reply) → reply = f call

/-- **A faithful history**: nothing is cancelled in it, and components reply by what they are given. -/
structure Faithful (f : CallOf κ → Except String Reply) (h : History (Inquiry κ) Inquiry.Answer) : Prop where
  undisturbed : Undisturbed h
  replies : Trace.RepliesBy f (exchanges h)

namespace Faithful

variable {f : CallOf κ → Except String Reply}

/-- What is part of a faithful history is faithful. -/
theorem of_subset (hf : Faithful f h) (hsub : exchanges k ⊆ exchanges h) (hstill : Unwoken k) :
    Faithful f k :=
  ⟨⟨fun e he => hf.undisturbed.answers e (hsub he), hstill⟩,
    fun b hb e he => hf.replies b (hsub hb) e (hsub he)⟩

theorem left (hf : Faithful f (h ++ k)) : Faithful f h := by
  refine hf.of_subset (fun e he => ?_) hf.undisturbed.left.sleeps
  rw [exchanges_append]
  exact List.mem_append_left _ he

theorem right (hf : Faithful f (h ++ k)) : Faithful f k := by
  refine hf.of_subset (fun e he => ?_) hf.undisturbed.right.sleeps
  rw [exchanges_append]
  exact List.mem_append_right _ he

theorem tail {turn : Turn (Inquiry κ) Inquiry.Answer} (hf : Faithful f (turn :: h)) : Faithful f h :=
  right (h := [turn]) hf

/-- However far out it is seen from. -/
theorem of_into {l : Layer} (hf : Faithful f (h.map (Turn.into l))) : Faithful f h where
  undisturbed := hf.undisturbed.of_into
  replies b hb e he call ticket reply hbegun hcollected := by
    have hmem : ∀ e ∈ exchanges h, Entry.into l e ∈ exchanges (h.map (Turn.into l)) :=
      fun e he => exchanges_into h l ▸ List.mem_map_of_mem he
    rw [← Entry.begun?_into l] at hbegun
    rw [← Entry.collected?_into l] at hcollected
    exact hf.replies _ (hmem b hb) _ (hmem e he) call ticket reply hbegun hcollected

end Faithful

/-! ## Faithful histories exist -/

/-- **A faithful history after some calls**, whose tickets are below `n`: its own calls have other tickets,
and what it collects for the calls before it is what `f` says of them. -/
structure FaithfulAfter (f : CallOf κ → Except String Reply) (calls : Nat → Option (CallOf κ)) (n : Nat)
    (h : History (Inquiry κ) Inquiry.Answer) : Prop extends Faithful f h where
  fresh : ∀ e ∈ exchanges h, ∀ call k, Entry.begun? e = some (call, k) → n ≤ k
  earlier : ∀ e ∈ exchanges h, ∀ k reply, Entry.collected? e = some (k, reply) →
    ∀ call, calls k = some call → reply = f call

namespace FaithfulAfter

variable {f : CallOf κ → Except String Reply} {calls calls' : Nat → Option (CallOf κ)} {n n' : Nat}

theorem nil : FaithfulAfter f calls n [] where
  undisturbed := ⟨List.forall_mem_nil _, List.forall_mem_nil _⟩
  replies := List.forall_mem_nil _
  fresh := List.forall_mem_nil _
  earlier := List.forall_mem_nil _

/-- A sleep that is not cancelled. -/
theorem cons_sleep {turn : Turn (Inquiry κ) Inquiry.Answer} (hh : FaithfulAfter f calls n h)
    (hturn : exchanges (turn :: h) = exchanges h) (hwoken : turn.isWoken = false) :
    FaithfulAfter f calls n (turn :: h) where
  undisturbed := ⟨hturn ▸ hh.undisturbed.answers, List.forall_mem_cons.2 ⟨hwoken, hh.undisturbed.sleeps⟩⟩
  replies := hturn ▸ hh.replies
  fresh := hturn ▸ hh.fresh
  earlier := hturn ▸ hh.earlier

/-- One exchange more: a call that is known to what follows, or the reply to a call before it. -/
theorem cons {e : Entry κ} (hh : FaithfulAfter f calls' n' h) (he : e.callsOff = false) (hn : n ≤ n')
    (hcalls : ∀ k call, calls k = some call → calls' k = some call)
    (hbegun : ∀ call k, e.begun? = some (call, k) → n ≤ k ∧ calls' k = some call ∧ e.collected? = none)
    (hcollected : ∀ k reply, e.collected? = some (k, reply) → k < n' ∧
      ∀ call, calls k = some call → reply = f call) : FaithfulAfter f calls n (.asked e :: h) where
  undisturbed := ⟨List.forall_mem_cons.2 ⟨he, hh.undisturbed.answers⟩,
    List.forall_mem_cons.2 ⟨rfl, hh.undisturbed.sleeps⟩⟩
  replies b hb x hx call k reply hbk hxk := by
    obtain rfl | hb' := List.mem_cons.1 hb <;> obtain rfl | hx' := List.mem_cons.1 hx
    · rw [(hbegun call k hbk).2.2] at hxk
      contradiction
    · exact hh.earlier x hx' k reply hxk call (hbegun call k hbk).2.1
    · have hlt := (hcollected k reply hxk).1
      have hle := hh.fresh b hb' call k hbk
      omega
    · exact hh.replies b hb' x hx' call k reply hbk hxk
  fresh := List.forall_mem_cons.2 ⟨fun call k hk => (hbegun call k hk).1,
    fun x hx call k hk => hn.trans (hh.fresh x hx call k hk)⟩
  earlier := List.forall_mem_cons.2 ⟨fun k reply hk => (hcollected k reply hk).2,
    fun x hx k reply hk call hc => hh.earlier x hx k reply hk call (hcalls k call hc)⟩

end FaithfulAfter

/-- **Every script has a faithful history**, whatever was called before. -/
theorem exists_faithfulAfter (f : CallOf κ → Except String Reply) (s : RunScript κ α)
    {calls : Nat → Option (CallOf κ)} {n : Nat} (hcalls : ∀ k call, calls k = some call → k < n) :
    ∃ h a, s.Unfolds h a ∧ FaithfulAfter f calls n h := by
  induction s generalizing calls n with
  | done a => exact ⟨[], a, .done a, .nil⟩
  | ask q next ih =>
    obtain ⟨site, step, request⟩ := q
    let answer : request.Answer :=
      request.steadily (fun _ => n) fun k => ((calls k).elim (.error "") f)
    have hoff : Entry.callsOff ⟨⟨site, step, request⟩, answer⟩ = false := Request.callsOff_steadily _
    cases request with
    | begin space name component input =>
      -- the ticket is that of no call before it
      have hbooked : ∀ k call, (if k = n then some (space, name, component, input) else calls k) =
          some call → k < n + 1 := fun k call hk => by
        split at hk
        · omega
        · exact Nat.lt_succ_of_lt (hcalls k call hk)
      obtain ⟨h, a, u, hh⟩ := ih answer hbooked
      refine ⟨_, a, unfolds_ask.2 ⟨answer, h, u, rfl⟩, hh.cons hoff (Nat.le_succ n) (fun k call hk => ?_) ?_ nofun⟩
      · rw [if_neg (Nat.ne_of_lt (hcalls k call hk)), hk]
      · rintro call k ⟨⟩
        exact ⟨Nat.le_refl n, if_pos rfl, rfl⟩
    | collect k =>
      -- a ticket that is of no call is not used for one later
      obtain ⟨h, a, u, hh⟩ := ih answer (n := max n (k + 1)) fun j call hj =>
        Nat.lt_of_lt_of_le (hcalls j call hj) (Nat.le_max_left ..)
      refine ⟨_, a, unfolds_ask.2 ⟨answer, h, u, rfl⟩, hh.cons hoff (Nat.le_max_left ..) (fun _ _ => id) nofun ?_⟩
      rintro j reply ⟨⟩
      refine ⟨Nat.le_max_right n (k + 1), fun call hk => ?_⟩
      show (calls k).elim _ f = f call
      rw [hk]
      rfl
    | _ =>
      obtain ⟨h, a, u, hh⟩ := ih answer hcalls
      exact ⟨_, a, unfolds_ask.2 ⟨answer, h, u, rfl⟩, hh.cons hoff (Nat.le_refl n) (fun _ _ => id) nofun nofun⟩
  | poll deadline next ih =>
    obtain ⟨h, a, u, hh⟩ := ih (some false) hcalls
    exact ⟨_, a, .poll (some false) u, hh.cons_sleep rfl rfl⟩
  | pause next ih =>
    obtain ⟨h, a, u, hh⟩ := ih hcalls
    exact ⟨h, a, .pause u, hh⟩
  | sleep deadline next ih =>
    obtain ⟨h, a, u, hh⟩ := ih false hcalls
    exact ⟨_, a, .sleep false u, hh.cons_sleep rfl rfl⟩

theorem exists_faithful (f : CallOf κ → Except String Reply) (s : RunScript κ α) :
    ∃ h a, s.Unfolds h a ∧ Faithful f h := by
  have hnone : ∀ k call, (none : Option (CallOf κ)) = some call → k < 0 := nofun
  obtain ⟨h, a, u, hh⟩ := exists_faithfulAfter f s hnone
  exact ⟨h, a, u, hh.toFaithful⟩

/-- What a script that is followed exchanges is answered so. -/
theorem mem_follow {answer : Nat → (q : Inquiry κ) → q.Answer} {n : Nat} {s : RunScript κ α} {e : Entry κ}
    (he : e ∈ exchanges (follow answer n s).1) : ∃ k, e.answer = answer k e.request := by
  induction s generalizing n with
  | done a => contradiction
  | ask q next ih =>
    obtain rfl | he := List.mem_cons.1 he
    · exact ⟨n, rfl⟩
    · exact ih _ he
  | poll deadline next ih | sleep deadline next ih => exact ih _ he
  | pause next ih => exact ih he

/-- **In steady surroundings** the history of every script is faithful. -/
theorem faithful_follow (ticket : String → Nat) (reply : Nat → Except String Reply) (n : Nat)
    (s : RunScript κ α) : Faithful (fun call => reply (ticket call.2.1))
      (follow (fun _ (q : Inquiry κ) => q.request.steadily ticket reply) n s).1 where
  undisturbed := undisturbed_follow (fun _ q => Request.callsOff_steadily q) n s
  replies b hb e he call k x hbegun hcollected := by
    obtain ⟨_, hb⟩ := mem_follow hb
    obtain ⟨_, he⟩ := mem_follow he
    obtain ⟨⟨site, step, request⟩, answer⟩ := b
    obtain ⟨⟨site', step', request'⟩, answer'⟩ := e
    dsimp only at hb he
    subst hb he
    cases request <;> first | contradiction | skip
    cases request' <;> first | contradiction | skip
    obtain ⟨rfl, rfl⟩ := Prod.mk.inj (Option.some.inj hbegun)
    obtain ⟨rfl, rfl⟩ := Prod.mk.inj (Option.some.inj hcollected)
    rfl

/-! ## Settled scripts -/

namespace RunScript

/-- **Scripts settle alike**: wherever their histories are faithful, what they come to is related. -/
def SettlesAlike (f : CallOf κ → Except String Reply) (R : α → β → Prop) (s : RunScript κ α)
    (s' : RunScript κ β) : Prop :=
  ∀ h a h' b, s.Unfolds h a → s'.Unfolds h' b → Faithful f h → Faithful f h' → R a b

variable {f : CallOf κ → Except String Reply}

/-- Side by side, scripts that settle alike do so. -/
theorem SettlesAlike.all {R : α → β → Prop} {ss : List (RunScript κ α)} {ss' : List (RunScript κ β)}
    (hss : List.Forall₂ (SettlesAlike f R) ss ss') :
    SettlesAlike f (List.Forall₂ R) (Script.all ss) (Script.all ss') := by
  intro h as h' bs u u' hf hf'
  have hall := members_of_all u
  have hall' := members_of_all u'
  clear u u'
  induction hss generalizing as bs with
  | nil =>
    cases hall
    cases hall'
    exact .nil
  | cons hs _ ih =>
    obtain _ | ⟨⟨k, v, hsub, hstill⟩, hrest⟩ := hall
    obtain _ | ⟨⟨k', v', hsub', hstill'⟩, hrest'⟩ := hall'
    refine .cons (hs k _ k' _ v v' ?_ ?_) (ih _ _ hrest hrest')
    · exact hf.of_subset hsub (hstill hf.undisturbed.sleeps)
    · exact hf'.of_subset hsub' (hstill' hf'.undisturbed.sleeps)

end RunScript

open RunScript

/-- **To settle alike** is a congruence. Whether a checkpoint is saved is not settled, so it is one of runs
that save none. -/
def settling (f : CallOf κ → Except String Reply) : Congruence κ where
  Alike := SettlesAlike f
  Saves := False
  done hab _ _ _ _ u u' _ _ := by
    obtain ⟨-, rfl⟩ := unfolds_done.1 u
    obtain ⟨-, rfl⟩ := unfolds_done.1 u'
    exact hab
  andThen hs hk _ _ _ _ u u' hf hf' := by
    obtain ⟨h₁, h₂, a, u₁, u₂, rfl⟩ := unfolds_andThen.1 u
    obtain ⟨h₁', h₂', b, u₁', u₂', rfl⟩ := unfolds_andThen.1 u'
    exact hk a b (hs _ _ _ _ u₁ u₁' hf.left hf'.left) _ _ _ _ u₂ u₂' hf.right hf'.right
  under hs _ _ _ _ u u' hf hf' := by
    obtain ⟨k, v, rfl⟩ := unfolds_under.1 u
    obtain ⟨k', v', rfl⟩ := unfolds_under.1 u'
    exact hs _ _ _ _ v v' hf.of_into hf'.of_into
  request _ _ _ _ _ _ _ _ _ _ _ := trivial
  isCancelled _ _ _ _ u u' hf hf' := by
    rw [spares_isCancelled _ _ u hf.undisturbed, spares_isCancelled _ _ u' hf'.undisturbed]
  call space name component input _ _ _ _ u u' hf hf' := by
    -- either way it is the reply to what it is given
    have hreply : ∀ h reply, (call space name component input).Unfolds h reply → Faithful f h →
        reply = f (space, name, component, input) := by
      intro h reply u hf
      obtain ⟨x, rfl⟩ := Runner.call_unfolds_iff.1 u
      exact hf.replies _ List.mem_cons_self _ (List.mem_cons_of_mem _ List.mem_cons_self) _ _ _ rfl rfl
    rw [hreply _ _ u hf, hreply _ _ u' hf']
  sleepUntil _ _ _ _ _ _ u u' hf hf' := by
    rw [spares_sleepUntil _ _ _ u hf.undisturbed, spares_sleepUntil _ _ _ u' hf'.undisturbed]
  all := SettlesAlike.all
  save := False.elim

/-- **Every step settles**: in all faithful histories it comes to the same, up to times. -/
theorem Runner.step_settles {r : Runner κ} {f : CallOf κ → Except String Reply} (levels : Nat) (s : Step)
    (c : Context) (scope : Scope) : SettlesAlike f (fun o o' => o.gist = o'.gist)
      (r.step (r.execute levels) c scope s) (r.step (r.execute levels) c scope s) :=
  Congruence.step_steady (C := settling f) (Congruence.execute_nests levels) s c scope

end Stepflow
