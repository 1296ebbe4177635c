import Stepflow.Proofs.Run.Passage

/-!
# The course of a step

A step takes the time, and then one of three courses: it is skipped by its condition, it is cancelled
before it starts, or it starts, is tried, and may run its fallback. `StepCourse` tells them apart, and
every history of a step is one of them (`step_course`). In the end, whatever the course, the step tells
what it came to (`finish_unfolds`).

A step with a policy is tried again and again, and a validation is fixed and checked again and again.
What the loop of tries does is some `Rounds` and then a `LastTry` (`retrying_unfolds`). `Tried` and
`Fixing` tell a history apart into the tries and the fixes that it is made of, in the order in which
they were made, so that they can be counted (`retried_tried`, `validating_fixing`).
-/

namespace Stepflow

open Script

variable {κ : Type} {r : Runner κ} {execute : Execute κ} {c : Context} {scope : Scope} {s : Step}
  {h : History (Inquiry κ) Inquiry.Answer} {o : StepOutcome} {a : Attempt}

namespace Runner

/-- **The end of a step** takes the time, and tells the result with it. -/
theorem finish_unfolds {began : Nat} {o' : StepOutcome}
    (u : (finish scope s began o : RunScript κ StepOutcome).Unfolds h o') :
    ∃ now d, o' = { o with result := { o.result with durationMs := d } } ∧
      h = [.asked (Entry.of .now now),
        .asked (Entry.ofCompleted scope.workflow s o'.result)] := by
  obtain ⟨h₁, h₂, d, u₁, u₂, rfl⟩ := unfolds_andThen.1 u
  obtain ⟨h₃, h₄, now, u₃, u₄, rfl⟩ := unfolds_andThen.1 u₁
  obtain ⟨rfl, rfl⟩ := unfolds_done.1 u₄
  obtain ⟨_, k, u₅, rfl⟩ := unfolds_ask.1 u₃
  obtain ⟨rfl, rfl⟩ := unfolds_done.1 u₅
  obtain ⟨_, k, u₆, rfl⟩ := unfolds_ask.1 u₂
  obtain ⟨rfl, rfl⟩ := unfolds_done.1 u₆
  exact ⟨now, _, rfl, rfl⟩

/-- The turn at which a step starts. -/
def startTurn (scope : Scope) (s : Step) : Turn (Inquiry κ) Inquiry.Answer :=
  .asked ⟨{ step := some s, request := .tell (.stepStarted scope.workflow s.name s.type) }, ()⟩

/-- **The course of a step**, and what it came to. -/
inductive StepCourse (r : Runner κ) (execute : Execute κ) (c : Context) (scope : Scope) (s : Step) :
    History (Inquiry κ) Inquiry.Answer → StepOutcome → Prop
  /-- Its condition does not hold. -/
  | skipped {began : Nat} {reason : Option String} {h : History (Inquiry κ) Inquiry.Answer}
      {o : StepOutcome} : s.skipReason? c = some reason →
      (finish scope s began { result := .skipped s reason }).Unfolds h o →
      StepCourse r execute c scope s (.asked (Entry.of .now began) :: h) o
  /-- All is cancelled before it starts. -/
  | cancelled {began : Nat} {h : History (Inquiry κ) Inquiry.Answer} {o : StepOutcome} :
      s.skipReason? c = none → (finish scope s began { result := .cancelled s }).Unfolds h o →
      StepCourse r execute c scope s (.asked (Entry.of .now began) :: pollTurn true :: h) o
  /-- It starts and is tried; then its fallback is run, if the last try failed and there is one. -/
  | tried {began n : Nat} {a a' : Attempt} {h k l : History (Inquiry κ) Inquiry.Answer}
      {o : StepOutcome} : s.skipReason? c = none →
      (r.retried s.retryPolicy (r.kindOf execute c scope s.name s.kind)).Unfolds h (a, n) →
      (recovering (s.onError.map (r.plan execute c scope)) a).Unfolds k a' →
      (finish scope s began (s.conclude a' n)).Unfolds l o →
      StepCourse r execute c scope s
        (.asked (Entry.of .now began) :: pollTurn false :: startTurn scope s :: (h ++ (k ++ l))) o

/-- **Every step takes a course.** -/
theorem step_course (u : (r.step execute c scope s).Unfolds h o) :
    r.StepCourse execute c scope s h o := by
  rw [step_eq, fallbackOf_eq] at u
  obtain ⟨began, h₁, u₁, rfl⟩ := unfolds_ask.1 u
  rw [andThen] at u₁
  split at u₁
  · rename_i hskip
    exact .skipped hskip u₁
  · rename_i hskip
    obtain ⟨cancelled, h₂, u₂, rfl⟩ := unfolds_ask.1 u₁
    rw [andThen] at u₂
    split at u₂
    · rename_i hcancelled
      subst hcancelled
      exact .cancelled hskip u₂
    · rename_i hcancelled
      obtain rfl := Bool.eq_false_iff.2 hcancelled
      obtain ⟨_, h₃, u₃, rfl⟩ := unfolds_ask.1 u₂
      rw [andThen] at u₃
      obtain ⟨h₄, h₅, ⟨a, n⟩, u₄, u₅, rfl⟩ := unfolds_andThen.1 u₃
      obtain ⟨h₆, h₇, a', u₆, u₇, rfl⟩ := unfolds_andThen.1 u₅
      exact .tried hskip u₄ u₆ u₇

end Runner

/-! ## Tries -/

/-- If nothing in a list has a property, the first that has it in the list with one more behind is the last,
or none. -/
theorem findIdx_append_last {α : Type} {p : α → Bool} {xs : List α} (h : ∀ x ∈ xs, p x = false) (y : α) :
    (xs ++ [y]).findIdx p = xs.length + if p y then 0 else 1 := by
  have hnone : ¬∃ x ∈ xs, p x = true := by
    rintro ⟨x, hx, hp⟩
    rw [h x hx] at hp
    contradiction
  rw [List.findIdx_append, if_neg (by simpa using hnone), List.findIdx_singleton, Nat.add_comm]

/-- The number of tries that a policy allows; one, if there is none. -/
def maxTries (policy : Option RetryPolicy) : Nat := policy.elim 1 fun p => max 1 p.maxAttempts

/-- A count of 32 bits has room for all tries if it has room for the number that the policy names. -/
theorem maxTries_lt {policy : Option RetryPolicy} (h : ∀ p ∈ policy, p.maxAttempts < UInt32.size) :
    maxTries policy < UInt32.size := by
  have hone : 1 < UInt32.size := by decide
  cases policy with
  | none => exact hone
  | some p => exact Nat.max_lt.2 ⟨hone, h p rfl⟩

/-- The effects of tries one after the other. -/
def effectsOf (as : List Attempt) : Effects := .concat (as.map Attempt.effects)

@[simp] theorem effectsOf_nil : effectsOf [] = .empty := rfl

@[simp] theorem effectsOf_cons (a : Attempt) (as : List Attempt) :
    effectsOf (a :: as) = a.effects ++ effectsOf as := rfl

@[simp] theorem effectsOf_append (as bs : List Attempt) :
    effectsOf (as ++ bs) = effectsOf as ++ effectsOf bs := by
  rw [effectsOf, List.map_append, Effects.concat_append, effectsOf, effectsOf]

namespace Runner

variable {policy : Option RetryPolicy} {p : RetryPolicy} {attempt : RunScript κ Attempt}
  {as : List Attempt} {first left n : Nat} {effects : Effects}

/-- **Tries that are followed by another**, numbered from `first`: each failed, and was followed by a
wait that was not cancelled. -/
inductive Rounds (r : Runner κ) (policy : Option RetryPolicy) (attempt : RunScript κ Attempt) :
    (first : Nat) → List Attempt → History (Inquiry κ) Inquiry.Answer → Prop
  | nil {first : Nat} : Rounds r policy attempt first [] []
  | cons {first : Nat} {p : RetryPolicy} {a : Attempt} {as : List Attempt}
      {h k l : History (Inquiry κ) Inquiry.Answer} : p ∈ policy →
      (attempt.under (.attempt first)).Unfolds h a → a.isFailure →
      (r.wait p (first + 1)).Unfolds k false → Rounds r policy attempt (first + 1) as l →
      Rounds r policy attempt first (a :: as) (h ++ (k ++ l))

theorem Rounds.failed (hr : Rounds r policy attempt first as h) : ∀ a ∈ as, a.isFailure := by
  induction hr with
  | nil => exact List.forall_mem_nil _
  | cons _ _ hfailed _ _ ih => exact List.forall_mem_cons.2 ⟨hfailed, ih⟩

/-- **The last try**, of that number behind tries with these effects, and what the tries come to by it.
A limit tells the number of tries that are allowed. -/
inductive LastTry (r : Runner κ) (policy : Option RetryPolicy) (attempt : RunScript κ Attempt)
    (limit number : Nat) (effects : Effects) : History (Inquiry κ) Inquiry.Answer → Attempt → Prop
  /-- No other try follows: it did not fail, or all tries are used up. -/
  | ended {b : Attempt} {h : History (Inquiry κ) Inquiry.Answer} :
      (attempt.under (.attempt number)).Unfolds h b → (b.isFailure → number + 1 = limit) →
      LastTry r policy attempt limit number effects h { b with effects := effects ++ b.effects }
  /-- Another one was to follow, but the wait for it was cancelled. -/
  | interrupted {p : RetryPolicy} {b : Attempt} {h k : History (Inquiry κ) Inquiry.Answer} : p ∈ policy →
      (attempt.under (.attempt number)).Unfolds h b → b.isFailure → number + 1 < limit →
      (r.wait p (number + 1)).Unfolds k true →
      LastTry r policy attempt limit number effects (h ++ k)
        { outcome := .error .cancelled, children := b.children, effects := effects ++ b.effects }

/-- A loop with tries left does some rounds and then its last try. -/
theorem retrying_unfolds (u : (retrying (r.wait p) attempt left first effects).Unfolds h (a, n)) :
    ∃ as k l, Rounds r (some p) attempt first as k ∧ as.length ≤ left ∧
      LastTry r (some p) attempt (first + left + 1) (first + as.length) (effects ++ effectsOf as) l a ∧
      h = k ++ l ∧ n = first + as.length + 1 := by
  -- by induction on the tries left: behind a wait that is not cancelled the loop has one less
  induction left generalizing first effects h with
  | zero =>
    obtain ⟨b, u₁, hb⟩ := unfolds_andThen_done.1 u
    obtain ⟨rfl, rfl⟩ := Prod.mk.inj hb
    refine ⟨[], [], h, .nil, Nat.le_refl _, ?_, rfl, rfl⟩
    rw [effectsOf_nil, Effects.append_empty]
    exact .ended u₁ fun _ => rfl
  | succ left ih =>
    obtain ⟨h₁, h₂, b, u₁, u₂, rfl⟩ := unfolds_andThen.1 u
    dsimp only at u₂
    split at u₂
    · rename_i hfailed
      obtain ⟨h₃, h₄, cancelled, u₃, u₄, rfl⟩ := unfolds_andThen.1 u₂
      cases cancelled with
      | true =>
        obtain ⟨rfl, hb⟩ := unfolds_done.1 u₄
        obtain ⟨rfl, rfl⟩ := Prod.mk.inj hb
        refine ⟨[], [], h₁ ++ h₃, .nil, Nat.zero_le _, ?_, by rw [List.append_nil]; rfl, rfl⟩
        rw [effectsOf_nil, Effects.append_empty]
        exact .interrupted rfl u₁ hfailed (by simp only [List.length_nil]; omega) u₃
      | false =>
        obtain ⟨as, k, l, hrounds, hle, hlast, rfl, rfl⟩ := ih u₄
        refine ⟨b :: as, h₁ ++ (h₃ ++ k), l, .cons rfl u₁ hfailed u₃ hrounds,
          Nat.succ_le_succ hle, ?_, by simp only [List.append_assoc], ?_⟩
        · have hnumber : first + 1 + as.length = first + (b :: as).length := by
            rw [List.length_cons]; omega
          have hlimit : first + 1 + left + 1 = first + (left + 1) + 1 := by omega
          rw [effectsOf_cons, ← Effects.append_assoc, ← hnumber, ← hlimit]
          exact hlast
        · rw [List.length_cons]; omega
    · rename_i hnot
      obtain ⟨rfl, hb⟩ := unfolds_done.1 u₂
      obtain ⟨rfl, rfl⟩ := Prod.mk.inj hb
      refine ⟨[], [], h₁, .nil, Nat.zero_le _, ?_, List.append_nil _, rfl⟩
      rw [effectsOf_nil, Effects.append_empty]
      exact .ended u₁ fun hfailed => absurd hfailed hnot

theorem maxTries_some (p : RetryPolicy) : maxTries (some p) = p.retries + 1 := by
  rw [maxTries, Option.elim_some, RetryPolicy.retries]
  omega

/-- **A step is tried** in some rounds and a last try, within what its policy allows. -/
theorem retried_unfolds (u : (r.retried policy attempt).Unfolds h (a, n)) :
    ∃ as k l, Rounds r policy attempt 0 as k ∧ as.length + 1 ≤ maxTries policy ∧
      LastTry r policy attempt (maxTries policy) as.length (effectsOf as) l a ∧
      h = k ++ l ∧ n = as.length + 1 := by
  cases policy with
  | none =>
    obtain ⟨b, utry, hb⟩ := unfolds_andThen_done.1 u
    obtain ⟨rfl, rfl⟩ := Prod.mk.inj hb
    exact ⟨[], [], h, .nil, Nat.le_refl _, .ended utry fun _ => rfl, rfl, rfl⟩
  | some p =>
    obtain ⟨as, k, l, hrounds, hle, hlast, rfl, rfl⟩ := retrying_unfolds u
    rw [maxTries_some]
    rw [Nat.zero_add, Nat.zero_add, Effects.empty_append] at hlast
    exact ⟨as, k, l, hrounds, Nat.succ_le_succ hle, hlast, rfl, by rw [Nat.zero_add]⟩

/-- **The tries of a step**, numbered from `first`, with what they came to: all but the last failed, and
the wait after each of these was not cancelled. -/
inductive Tried (r : Runner κ) (policy : Option RetryPolicy) (attempt : RunScript κ Attempt) :
    (first : Nat) → List Attempt → History (Inquiry κ) Inquiry.Answer → Prop
  /-- No other try follows. -/
  | last {first : Nat} {a : Attempt} {h : History (Inquiry κ) Inquiry.Answer} :
      (attempt.under (.attempt first)).Unfolds h a → Tried r policy attempt first [a] h
  /-- No other try follows, since the wait for it was cancelled. -/
  | interrupted {first : Nat} {p : RetryPolicy} {a : Attempt}
      {h k : History (Inquiry κ) Inquiry.Answer} : p ∈ policy →
      (attempt.under (.attempt first)).Unfolds h a → a.isFailure →
      (r.wait p (first + 1)).Unfolds k true → Tried r policy attempt first [a] (h ++ k)
  /-- Another try follows after the wait. -/
  | again {first : Nat} {p : RetryPolicy} {a : Attempt} {as : List Attempt}
      {h k l : History (Inquiry κ) Inquiry.Answer} : p ∈ policy →
      (attempt.under (.attempt first)).Unfolds h a → a.isFailure →
      (r.wait p (first + 1)).Unfolds k false → Tried r policy attempt (first + 1) as l →
      Tried r policy attempt first (a :: as) (h ++ (k ++ l))

end Runner

/-- Tries come to what the last one came to, unless all is cancelled behind it. -/
def Attempt.EndsAs (a b : Attempt) : Prop :=
  (a.outcome = b.outcome ∧ a.fixes = b.fixes) ∨ a.outcome = .error .cancelled

namespace Runner

/-- The last try ends the tries, if it follows them. -/
theorem Rounds.tried {limit : Nat} {k l : History (Inquiry κ) Inquiry.Answer}
    (hr : Rounds r policy attempt first as k)
    (hl : LastTry r policy attempt limit (first + as.length) effects l a) :
    ∃ b, Tried r policy attempt first (as ++ [b]) (k ++ l) ∧ a.EndsAs b := by
  induction hr with
  | nil =>
    rw [List.nil_append]
    cases hl with
    | ended u _ => exact ⟨_, .last u, .inl ⟨rfl, rfl⟩⟩
    | interrupted hp u hfailed _ hwait => exact ⟨_, .interrupted hp u hfailed hwait, .inr rfl⟩
  | cons hp u hfailed hwait _ ih =>
    rw [List.length_cons, Nat.add_comm _ 1, ← Nat.add_assoc] at hl
    obtain ⟨b, hrest, hends⟩ := ih hl
    refine ⟨b, ?_, hends⟩
    rw [List.append_assoc, List.append_assoc]
    exact .again hp u hfailed hwait hrest

/-- The tries of a step, with the last one told apart. -/
theorem retried_last (u : (r.retried policy attempt).Unfolds h (a, n)) :
    ∃ as b, Tried r policy attempt 0 (as ++ [b]) h ∧ a.EndsAs b ∧ n = as.length + 1 ∧
      n ≤ maxTries policy := by
  obtain ⟨as, k, l, hrounds, hle, hlast, rfl, rfl⟩ := retried_unfolds u
  rw [← Nat.zero_add as.length] at hlast
  obtain ⟨b, htried, hends⟩ := hrounds.tried hlast
  exact ⟨as, b, htried, hends, rfl, hle⟩

/-- **A step is tried at least once, and not more often than its policy allows**; the number that it
reports is the number of its tries. -/
theorem retried_tried (u : (r.retried policy attempt).Unfolds h (a, n)) :
    ∃ as, Tried r policy attempt 0 as h ∧ as.length = n ∧ 1 ≤ n ∧ n ≤ maxTries policy := by
  obtain ⟨as, b, htried, -, rfl, hle⟩ := retried_last u
  exact ⟨as ++ [b], htried, List.length_append, Nat.succ_pos _, hle⟩

/-! ## Fixes -/

/-- What is done to fix a validation, numbered: the fix is run, if there is one. -/
def FixRun (fix : Option (Planned κ)) (number : Nat) (h : History (Inquiry κ) Inquiry.Answer) : Prop :=
  match fix with
  | none => h = []
  | some f => ∃ o, (f.runAs (.fix number)).Unfolds h o

/-- **The fixes of a validation**, numbered from `first`, and how many there are. Each follows a pass
over the stages that found a failure, and the answer that nothing is cancelled. -/
inductive Fixing (stages : StepScript κ (Option StageFailure)) (fix : Option (Planned κ)) :
    (first count : Nat) → History (Inquiry κ) Inquiry.Answer → Prop
  /-- No fix follows the pass. -/
  | last {first : Nat} {outcome : Except StepError (Option StageFailure)}
      {h : History (Inquiry κ) Inquiry.Answer} : stages.run.Unfolds h outcome →
      Fixing stages fix first 0 h
  /-- No fix follows, since all is cancelled. -/
  | interrupted {first : Nat} {failure : StageFailure} {h : History (Inquiry κ) Inquiry.Answer} :
      stages.run.Unfolds h (.ok (some failure)) → Fixing stages fix first 0 (h ++ [pollTurn true])
  /-- The fix is the last of all, since it was cancelled. -/
  | broken {first : Nat} {failure : StageFailure} {h k : History (Inquiry κ) Inquiry.Answer} :
      stages.run.Unfolds h (.ok (some failure)) → FixRun fix first k →
      Fixing stages fix first 1 (h ++ pollTurn false :: k)
  /-- After the fix the stages are called again. -/
  | again {first count : Nat} {failure : StageFailure} {h k l : History (Inquiry κ) Inquiry.Answer} :
      stages.run.Unfolds h (.ok (some failure)) → FixRun fix first k →
      Fixing stages fix (first + 1) count l →
      Fixing stages fix first (count + 1) (h ++ pollTurn false :: (k ++ l))

/-- **The fixes of a validation and its last verdict**: what its last pass over the stages came to. -/
inductive Judged (stages : StepScript κ (Option StageFailure)) (fix : Option (Planned κ)) :
    (first count : Nat) → Except StepError (Option StageFailure) →
      History (Inquiry κ) Inquiry.Answer → Prop
  /-- No fix follows the pass. -/
  | last {first : Nat} {verdict : Except StepError (Option StageFailure)}
      {h : History (Inquiry κ) Inquiry.Answer} : stages.run.Unfolds h verdict →
      Judged stages fix first 0 verdict h
  /-- No fix follows, since all is cancelled. -/
  | interrupted {first : Nat} {failure : StageFailure} {h : History (Inquiry κ) Inquiry.Answer} :
      stages.run.Unfolds h (.ok (some failure)) →
      Judged stages fix first 0 (.ok (some failure)) (h ++ [pollTurn true])
  /-- The fix is the last of all, since it was cancelled. -/
  | broken {first : Nat} {failure : StageFailure} {h k : History (Inquiry κ) Inquiry.Answer} :
      stages.run.Unfolds h (.ok (some failure)) → FixRun fix first k →
      Judged stages fix first 1 (.ok (some failure)) (h ++ pollTurn false :: k)
  /-- After the fix the stages are called again. -/
  | again {first count : Nat} {failure : StageFailure}
      {verdict : Except StepError (Option StageFailure)}
      {h k l : History (Inquiry κ) Inquiry.Answer} :
      stages.run.Unfolds h (.ok (some failure)) → FixRun fix first k →
      Judged stages fix (first + 1) count verdict l →
      Judged stages fix first (count + 1) verdict (h ++ pollTurn false :: (k ++ l))

theorem Judged.fixing {stages : StepScript κ (Option StageFailure)} {fix : Option (Planned κ)}
    {first count : Nat} {verdict : Except StepError (Option StageFailure)}
    (hj : Judged stages fix first count verdict h) : Fixing stages fix first count h := by
  induction hj with
  | last u => exact .last u
  | interrupted u => exact .interrupted u
  | broken u hrun => exact .broken u hrun
  | again u hrun _ ih => exact .again u hrun ih

end Runner

/-- **What a try of a validation says** after some fixes and a last verdict. It says how many fixes there
were only where the last pass came to its end. -/
inductive Attempt.Says (a : Attempt) (fixes : Nat) : Except StepError (Option StageFailure) → Prop
  | passed : a.outcome = .ok (validationOutput fixes) → a.fixes = fixes → Says a fixes (.ok none)
  | failed {f : StageFailure} : a.outcome = .error (.validation f.stage f.reason fixes) →
      a.fixes = fixes → Says a fixes (.ok (some f))
  /-- A stage could not be called. -/
  | unusable {e : StepError} : a.outcome = .error e → a.fixes = 0 → Says a fixes (.error e)
  /-- All was cancelled behind the last pass. -/
  | cancelled {f : StageFailure} : a.outcome = .error .cancelled → a.fixes = 0 →
      Says a fixes (.ok (some f))

theorem Attempt.Says.le {fixes : Nat} {verdict : Except StepError (Option StageFailure)}
    (hs : a.Says fixes verdict) : a.fixes ≤ fixes := by
  cases hs with
  | passed _ h | failed _ h => exact Nat.le_of_eq h
  | unusable _ h | cancelled _ h => rw [h]; exact Nat.zero_le _

namespace Runner

/-- **A validation makes its fixes and comes to a verdict**, and says so. -/
theorem validating_judged {stages : StepScript κ (Option StageFailure)} {fix : Option (Planned κ)}
    {left : Nat} {fixes : Fixes} (u : (validating stages fix left fixes).Unfolds h a) :
    ∃ count ≤ left, ∃ verdict, Judged stages fix fixes.count count verdict h ∧
      a.Says (fixes.count + count) verdict := by
  -- by induction on the fixes left: behind a fix the validation has one less
  induction left generalizing fixes h with
  | zero =>
    rw [validating] at u
    obtain ⟨h₁, h₂, outcome, u₁, u₂, rfl⟩ := unfolds_andThen.1 u
    have hdone : h₂ = [] ∧ a.Says fixes.count outcome := by
      split at u₂ <;> obtain ⟨rfl, rfl⟩ := unfolds_done.1 u₂
      · exact ⟨rfl, .unusable rfl rfl⟩
      · exact ⟨rfl, .passed rfl rfl⟩
      · exact ⟨rfl, .failed rfl rfl⟩
    obtain ⟨rfl, hsays⟩ := hdone
    rw [List.append_nil]
    exact ⟨0, Nat.le_refl _, outcome, .last u₁, hsays⟩
  | succ left ih =>
    rw [validating] at u
    obtain ⟨h₁, h₂, outcome, u₁, u₂, rfl⟩ := unfolds_andThen.1 u
    split at u₂
    · obtain ⟨rfl, rfl⟩ := unfolds_done.1 u₂
      rw [List.append_nil]
      exact ⟨0, Nat.zero_le _, _, .last u₁, .unusable rfl rfl⟩
    · obtain ⟨rfl, rfl⟩ := unfolds_done.1 u₂
      rw [List.append_nil]
      exact ⟨0, Nat.zero_le _, _, .last u₁, .passed rfl rfl⟩
    · obtain ⟨h₃, h₄, cancelled, u₃, u₄, rfl⟩ := unfolds_andThen.1 u₂
      obtain rfl := unfolds_isCancelled.1 u₃
      split at u₄
      · rename_i hcancelled
        obtain ⟨rfl, rfl⟩ := unfolds_done.1 u₄
        subst hcancelled
        exact ⟨0, Nat.zero_le _, _, .interrupted u₁, .cancelled rfl rfl⟩
      · rename_i hcancelled
        obtain rfl := Bool.eq_false_iff.2 hcancelled
        have hnext (count : Nat) : fixes.count + 1 + count = fixes.count + (count + 1) := by omega
        cases fix with
        | none =>
          obtain ⟨count, hle, verdict, hrest, hsays⟩ := ih u₄
          rw [Fixes.afterNothing, hnext] at hsays
          exact ⟨count + 1, by omega, verdict, .again (k := []) u₁ rfl hrest, hsays⟩
        | some f =>
          obtain ⟨h₅, h₆, o, u₅, u₆, rfl⟩ := unfolds_andThen.1 u₄
          dsimp only at u₆
          split at u₆
          · obtain ⟨rfl, rfl⟩ := unfolds_done.1 u₆
            rw [List.append_nil]
            exact ⟨1, by omega, _, .broken u₁ ⟨o, u₅⟩, .cancelled rfl rfl⟩
          · obtain ⟨count, hle, verdict, hrest, hsays⟩ := ih u₆
            rw [Fixes.after, hnext] at hsays
            exact ⟨count + 1, by omega, verdict, .again (k := h₅) u₁ ⟨o, u₅⟩ hrest, hsays⟩

/-- **A validation is not fixed more often than it says**, and does not report more fixes than were
made. -/
theorem validating_fixing {stages : StepScript κ (Option StageFailure)} {fix : Option (Planned κ)}
    {left : Nat} {fixes : Fixes} (u : (validating stages fix left fixes).Unfolds h a) :
    ∃ count ≤ left, Fixing stages fix fixes.count count h ∧ a.fixes ≤ fixes.count + count := by
  obtain ⟨count, hle, verdict, hjudged, hsays⟩ := validating_judged u
  exact ⟨count, hle, hjudged.fixing, hsays.le⟩

end Runner

end Stepflow
