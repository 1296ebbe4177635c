import Stepflow.Proofs.Run.Tries

/-!
# How often a step is tried

A step is tried until a try does not fail or the tries of its policy are used up, whichever is earlier,
and what the last try came to counts; a wait that is cancelled between two tries ends them. `Retries`
says this of a history without the loop: it names the tries in their order, and how many there are
follows from what they came to and from the policy (`pastFailures`, `maxTries`). The main statement is
that the histories of the loop are these and no others (`retried_unfolds_iff`).
-/

namespace Stepflow

open Script

variable {κ : Type} {r : Runner κ} {policy : Option RetryPolicy} {p : RetryPolicy}
  {attempt : RunScript κ Attempt} {h : History (Inquiry κ) Inquiry.Answer} {a b : Attempt}
  {as : List Attempt} {first left limit n : Nat} {effects : Effects}

/-! ## Counting tries -/

/-- **The place of the first try that does not fail**, counted from one; one behind the last, if all do.
-/
def pastFailures (as : List Attempt) : Nat := as.findIdx (fun a => !a.isFailure) + 1

/-- If all but the last fail, the first that does not fail is the last or none. -/
theorem pastFailures_append (hfailed : ∀ a ∈ as, a.isFailure) (b : Attempt) :
    pastFailures (as ++ [b]) = as.length + if b.isFailure then 2 else 1 := by
  have hnot : ∀ a ∈ as, (!a.isFailure) = false := fun a ha => by rw [hfailed a ha]; rfl
  rw [pastFailures, findIdx_append_last hnot]
  cases b.isFailure <;> rfl

/-- **The number of tries** is the smaller of the limit and the place of the first that does not fail:
there are not more than the limit, and just as many if the last one fails too. -/
theorem tries_eq_min_iff (hfailed : ∀ a ∈ as, a.isFailure) :
    as.length + 1 = min limit (pastFailures (as ++ [b])) ↔
      as.length + 1 ≤ limit ∧ (b.isFailure → as.length + 1 = limit) := by
  rw [pastFailures_append hfailed]
  cases b.isFailure with
  | true =>
    rw [if_pos rfl]
    constructor
    · intro hn
      exact ⟨by omega, fun _ => by omega⟩
    · rintro ⟨hle, hlimit⟩
      have hlimit := hlimit rfl
      omega
  | false =>
    rw [if_neg Bool.false_ne_true]
    constructor
    · intro hn
      exact ⟨by omega, nofun⟩
    · rintro ⟨hle, -⟩
      omega

namespace Runner

/-! ## Back to the loop -/

/-- A loop in which no try is left, or the next try does not fail, ends with it; one whose next wait is
cancelled ends with that. -/
theorem LastTry.unfolds (hl : LastTry r (some p) attempt (first + left + 1) first effects h a) :
    (retrying (r.wait p) attempt left first effects).Unfolds h (a, first + 1) := by
  cases hl with
  | @ended b h u hlimit =>
    cases left with
    | zero => exact u.andThen_done rfl
    | succ left =>
      have hnot : ¬b.isFailure := fun hfailed => by
        have hlimit := hlimit hfailed
        omega
      exact u.andThen_done (if_neg hnot)
  | @interrupted p' b h k hp u hfailed hlimit hwait =>
    obtain rfl := Option.some.inj hp
    cases left with
    | zero => omega
    | succ left =>
      refine unfolds_andThen.2 ⟨h, k, b, u, ?_, rfl⟩
      dsimp only
      rw [if_pos hfailed]
      exact hwait.andThen_done rfl

/-- Rounds lead to the last try. -/
theorem Rounds.unfolds {k l : History (Inquiry κ) Inquiry.Answer}
    (hr : Rounds r (some p) attempt first as k) (hle : as.length ≤ left)
    (hl : LastTry r (some p) attempt (first + left + 1) (first + as.length) (effects ++ effectsOf as)
      l a) :
    (retrying (r.wait p) attempt left first effects).Unfolds (k ++ l) (a, first + as.length + 1) := by
  induction as generalizing first left effects k with
  | nil =>
    cases hr
    rw [effectsOf_nil, Effects.append_empty] at hl
    exact hl.unfolds
  | cons b as ih =>
    obtain _ | ⟨hp, u, hfailed, hwait, hrest⟩ := hr
    obtain rfl := Option.some.inj hp
    -- a loop in which another round follows has a try left
    obtain ⟨left, rfl⟩ : ∃ m, left = m + 1 := ⟨left - 1, by rw [List.length_cons] at hle; omega⟩
    have hnumber : first + (b :: as).length = first + 1 + as.length := by rw [List.length_cons]; omega
    have hlimit : first + (left + 1) + 1 = first + 1 + left + 1 := by omega
    rw [effectsOf_cons, ← Effects.append_assoc, hnumber, hlimit] at hl
    have hgo := ih hrest (Nat.le_of_succ_le_succ hle) hl
    rw [hnumber, List.append_assoc, List.append_assoc]
    refine unfolds_andThen.2 ⟨_, _, b, u, ?_, rfl⟩
    dsimp only
    rw [if_pos hfailed]
    exact unfolds_andThen.2 ⟨_, _, false, hwait, hgo, rfl⟩

/-- Rounds and a last try, within what the policy allows, are tries of a step. -/
theorem retried_of_rounds {k l : History (Inquiry κ) Inquiry.Answer}
    (hrounds : Rounds r policy attempt 0 as k) (hle : as.length + 1 ≤ maxTries policy)
    (hlast : LastTry r policy attempt (maxTries policy) as.length (effectsOf as) l a) :
    (r.retried policy attempt).Unfolds (k ++ l) (a, as.length + 1) := by
  cases policy with
  | none =>
    -- there is no round without a policy
    cases hrounds with
    | cons hp => contradiction
    | nil =>
      cases hlast with
      | ended u _ => exact u.andThen_done rfl
      | interrupted hp => contradiction
  | some p =>
    rw [maxTries_some] at hle hlast
    have hlast : LastTry r (some p) attempt (0 + p.retries + 1) (0 + as.length)
        (.empty ++ effectsOf as) l a := by
      rw [Nat.zero_add, Nat.zero_add, Effects.empty_append]
      exact hlast
    have hgo := hrounds.unfolds (Nat.le_of_succ_le_succ hle) hlast
    rwa [Nat.zero_add] at hgo

/-! ## The statement -/

/-- **How a step is tried**: the history, what the tries come to, and the number of tries that is
reported. -/
inductive Retries (r : Runner κ) (policy : Option RetryPolicy) (attempt : RunScript κ Attempt) :
    History (Inquiry κ) Inquiry.Answer → Attempt → Nat → Prop
  /-- No wait is cancelled. The last try is the first that does not fail, or the last that is allowed;
  what it came to counts, with the effects of all. -/
  | ended {as : List Attempt} {b : Attempt} {h k : History (Inquiry κ) Inquiry.Answer} :
      Rounds r policy attempt 0 as h → (attempt.under (.attempt as.length)).Unfolds k b →
      as.length + 1 = min (maxTries policy) (pastFailures (as ++ [b])) →
      Retries r policy attempt (h ++ k) { b with effects := effectsOf (as ++ [b]) } (as.length + 1)
  /-- The wait after a try is cancelled; the children of this try stay, and the effects of all. -/
  | interrupted {p : RetryPolicy} {as : List Attempt} {b : Attempt}
      {h k l : History (Inquiry κ) Inquiry.Answer} : p ∈ policy → Rounds r policy attempt 0 as h →
      (attempt.under (.attempt as.length)).Unfolds k b →
      as.length + 1 < min (maxTries policy) (pastFailures (as ++ [b])) →
      (r.wait p (as.length + 1)).Unfolds l true →
      Retries r policy attempt (h ++ (k ++ l))
        { outcome := .error .cancelled, children := b.children, effects := effectsOf (as ++ [b]) }
        (as.length + 1)

/-- Rounds and a last try within the limit are how a step is tried. -/
theorem retries_iff {m : Nat} : Retries r policy attempt h a m ↔
    ∃ as k l, Rounds r policy attempt 0 as k ∧ as.length + 1 ≤ maxTries policy ∧
      LastTry r policy attempt (maxTries policy) as.length (effectsOf as) l a ∧ h = k ++ l ∧
      m = as.length + 1 := by
  have hsum (as : List Attempt) (b : Attempt) : effectsOf as ++ b.effects = effectsOf (as ++ [b]) := by
    rw [effectsOf_append, effectsOf_cons, effectsOf_nil, Effects.append_empty]
  constructor
  · intro hret
    cases hret with
    | @ended as b k l hrounds u hn =>
      obtain ⟨hle, hlimit⟩ := (tries_eq_min_iff hrounds.failed).1 hn
      rw [← hsum]
      exact ⟨as, k, l, hrounds, hle, .ended u hlimit, rfl, rfl⟩
    | @interrupted p as b k l w hp hrounds u hn hwait =>
      rw [pastFailures_append hrounds.failed] at hn
      -- a try behind which the loop would not go on is followed by no wait
      have hfailed : b.isFailure := by
        cases hb : b.isFailure with
        | true => rfl
        | false =>
          rw [hb, if_neg Bool.false_ne_true] at hn
          omega
      rw [← hsum]
      exact ⟨as, k, l ++ w, hrounds, by omega, .interrupted hp u hfailed (by omega) hwait, rfl, rfl⟩
  · rintro ⟨as, k, l, hrounds, hle, hlast, rfl, rfl⟩
    cases hlast with
    | @ended b _ u hlimit =>
      rw [hsum]
      exact .ended hrounds u ((tries_eq_min_iff hrounds.failed).2 ⟨hle, hlimit⟩)
    | @interrupted p b l w hp u hfailed hlimit hwait =>
      have hn : as.length + 1 < min (maxTries policy) (pastFailures (as ++ [b])) := by
        rw [pastFailures_append hrounds.failed, if_pos hfailed]
        omega
      rw [hsum]
      exact .interrupted hp hrounds u hn hwait

/-- **A step is tried as often as it has to be**: until a try does not fail, within what the policy
allows and once without one, or until a wait is cancelled; the tries are told by `Retries`, and all that
can be told so is possible. -/
theorem retried_unfolds_iff : (r.retried policy attempt).Unfolds h (a, n) ↔
    Retries r policy attempt h a n := by
  rw [retries_iff]
  constructor
  · exact retried_unfolds
  · rintro ⟨as, k, l, hrounds, hle, hlast, rfl, rfl⟩
    exact retried_of_rounds hrounds hle hlast

end Runner

end Stepflow
