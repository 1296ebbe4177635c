import Mathlib.Algebra.GroupWithZero.Nat
import Stepflow.Proofs.Cancellation
import Stepflow.Proofs.Decorations

/-!
# What a validate step reports

A validate step reports that it was fixed, and how many fixes were made. Both are read off the attempt
that its last try came to, after the fallback may have replaced its outcome. So the report follows what
happened (`Truthful`) only where no earlier try made fixes, no unregistered stage made the last try drop
its count, and no fallback stands in for a last try that was fixed in vain. The main statement is that
these are all the ways in which it can go wrong (`step_truthful_iff`).
-/

namespace Stepflow

open Script

variable {κ : Type} {r : Runner κ} {execute : Execute κ} {c : Context} {scope : Scope} {s : Step}
  {t : Trace κ} {h k : History (Inquiry κ) Inquiry.Answer} {o : StepOutcome} {a a' b : Attempt}
  {as : List Attempt} {policy : Option RetryPolicy} {attempt : RunScript κ Attempt} {first n d : Nat}
  {stages : List String} {retry : Nat} {fix : Option Step}

/-! ## What happened -/

/-- **One try of a validate step**, in brief. -/
structure Check where
  /-- How many fixes it made. -/
  fixes : Nat
  /-- What its last pass over the stages came to. -/
  verdict : Except StepError (Option StageFailure)

/-- **The report follows what happened**: a step is fixed only if its last pass is clean and it made a
fix, and unless it was cancelled its attempts are the fixes of all tries. -/
structure Truthful (checks : List Check) (result : StepResult) : Prop where
  fixed : result.status = .fixed → ∃ x ∈ checks.getLast?, x.verdict = .ok none ∧ 0 < x.fixes
  attempts : result.status ≠ .cancelled → result.attempts = (checks.map Check.fixes).sum

/-- **No fix is left out of the count**: only the last try made any, and none if it met an unregistered
stage. -/
structure CountsAll (checks : List Check) : Prop where
  earlier : ∀ x ∈ checks.dropLast, x.fixes = 0
  last : ∀ x ∈ checks.getLast?, x.verdict.isOk = false → x.fixes = 0

/-- **A fallback stands in** for a last try that was fixed and still failed. -/
def StandsIn (checks : List Check) (spare : Option StepOutcome) : Prop :=
  ∃ x ∈ checks.getLast?, 0 < x.fixes ∧ (∃ f, x.verdict = .ok (some f)) ∧ ∃ o ∈ spare, o.result.success

namespace Runner

/-- **What happened in a validate step**, from its trace: its tries in order, and its fallback if one was
run. -/
structure Checked (r : Runner κ) (execute : Execute κ) (c : Context) (scope : Scope) (s : Step)
    (stages : List String) (fix : Option Step) (t : Trace κ) (checks : List Check)
    (spare : Option StepOutcome) : Prop where
  /-- Every try makes its fixes, and its last pass comes to its verdict. -/
  tries : ∀ i x, checks[i]? = some x → ∃ h, exchanges h = t.within (.attempt i) ∧
    Judged (r.runStages stages) (r.fallbackOf execute c scope fix) 0 x.fixes x.verdict h
  /-- There are no other tries. -/
  others : ∀ i, checks.length ≤ i → t.within (.attempt i) = []
  /-- The fallback comes to its outcome. -/
  fallback : ∀ o ∈ spare, ∃ f ∈ s.onError, (r.step execute c scope f).Traces (t.within .fallback) o
  /-- No fallback is run. -/
  noFallback : spare = none → t.within .fallback = []

/-! ## The parts of the trace -/

/-- Between two tries nothing happens at any layer. -/
theorem wait_within {p : RetryPolicy} {cancelled : Bool} (u : (r.wait p n).Unfolds h cancelled)
    (l : Layer) : Trace.within (exchanges h) l = [] := by
  have hlayers : Trace.layers (exchanges h) = [] :=
    Trace.layers_of_asksOnly (asksOnly_wait (IsWork_site .jitter) (IsWork_site .now) r p n) u.traces
  exact Trace.within_eq_nil_iff.2 (hlayers ▸ List.not_mem_nil)

/-- A try is found at its own number only. -/
theorem under_within (u : (attempt.under (.attempt n)).Unfolds h b) :
    ∃ k, attempt.Unfolds k b ∧
      ∀ j, Trace.within (exchanges h) (.attempt j) = if n = j then exchanges k else [] := by
  obtain ⟨k, v, rfl⟩ := RunScript.unfolds_under.1 u
  refine ⟨k, v, fun j => ?_⟩
  rw [exchanges_into, Trace.within_into]
  simp only [Layer.attempt.injEq]

/-- **Every try is found at its number**, and no other number has anything. -/
theorem Tried.within (ht : Tried r policy attempt first as h) :
    (∀ i b, as[i]? = some b → ∃ k, exchanges k = Trace.within (exchanges h) (.attempt (first + i)) ∧
      attempt.Unfolds k b) ∧
    ∀ j, j < first ∨ first + as.length ≤ j → Trace.within (exchanges h) (.attempt j) = [] := by
  -- a last try, and whatever is behind it at no layer
  have hlone {first : Nat} {b : Attempt} {h k : History (Inquiry κ) Inquiry.Answer}
      (u : (attempt.under (.attempt first)).Unfolds h b)
      (hk : ∀ l, Trace.within (exchanges k) l = []) :
      (∀ i b', [b][i]? = some b' → ∃ l,
        exchanges l = Trace.within (exchanges (h ++ k)) (.attempt (first + i)) ∧
          attempt.Unfolds l b') ∧
      ∀ j, j < first ∨ first + [b].length ≤ j →
        Trace.within (exchanges (h ++ k)) (.attempt j) = [] := by
    obtain ⟨l, v, hl⟩ := under_within u
    simp only [exchanges_append, Trace.within_append, hl, hk, List.append_nil]
    constructor
    · rintro (_ | i) b' hb
      · obtain rfl := Option.some.inj hb
        exact ⟨l, (if_pos rfl).symm, v⟩
      · contradiction
    · intro j hj
      rw [List.length_singleton] at hj
      exact if_neg (by omega)
  induction ht with
  | last u =>
    rename_i h
    rw [← List.append_nil h]
    exact hlone u fun _ => rfl
  | interrupted hp u _ uwait => exact hlone u (wait_within uwait)
  | @again first p b as h k l hp u _ uwait _ ih =>
    obtain ⟨hat, hout⟩ := ih
    obtain ⟨l', v, hl⟩ := under_within u
    simp only [exchanges_append, Trace.within_append, hl, wait_within uwait, List.nil_append]
    constructor
    · rintro (_ | i) b' hb
      · obtain rfl := Option.some.inj hb
        rw [Nat.add_zero, if_pos rfl, hout first (.inl (Nat.lt_succ_self first)), List.append_nil]
        exact ⟨l', rfl, v⟩
      · rw [if_neg (by omega), List.nil_append, Nat.add_comm i 1, ← Nat.add_assoc]
        exact hat i b' hb
    · intro j hj
      rw [List.length_cons] at hj
      rw [if_neg (by omega), List.nil_append]
      exact hout j (by omega)

/-- A fallback is run or not, and the fixes are counted as before. -/
theorem Recovers.spare (hr : Recovers r execute c scope s a h a') :
    a'.fixes = a.fixes ∧ ∃ spare : Option StepOutcome,
      (∀ o ∈ spare, ∃ f ∈ s.onError,
        (r.step execute c scope f).Traces (Trace.within (exchanges h) .fallback) o) ∧
      (spare = none → Trace.within (exchanges h) .fallback = []) ∧
      (∀ i, Trace.within (exchanges h) (.attempt i) = []) ∧
      (a'.outcome.isOk ↔ a.outcome.isOk ∨ ∃ o ∈ spare, o.result.success) ∧
      (a.outcome = .error .cancelled → a'.outcome = .error .cancelled) := by
  cases hr with
  | kept _ =>
    exact ⟨rfl, none, nofun, fun _ => rfl, fun _ => rfl, by simp, id⟩
  | @replaced e f o outcome k he hnot hf u hreplaces =>
    obtain ⟨l, v, rfl⟩ := RunScript.unfolds_under.1 u
    have herror : a.outcome.isOk = false := by rw [he]; rfl
    have hsuccess : outcome.isOk ↔ o.result.success := by
      cases hreplaces with
      | succeeded h => exact iff_of_true rfl h
      | cancelled h | failed h =>
        refine iff_of_false Bool.false_ne_true ?_
        rw [StepResult.success, h]
        exact Bool.false_ne_true
    refine ⟨rfl, some o, ?_, fun hnone => absurd hnone (Option.some_ne_none o), ?_, ?_, ?_⟩
    · rintro _ ⟨⟩
      refine ⟨f, hf, ?_⟩
      rw [exchanges_into, Trace.within_into_self]
      exact v.traces
    · intro i
      rw [exchanges_into, Trace.within_into]
      rfl
    · simp [herror, hsuccess]
    · intro hcancelled
      rw [he] at hcancelled
      exact absurd (Except.error.inj hcancelled) hnot

end Runner

/-! ## The report -/

/-- The fixes of a try that the step counts. -/
def Check.counted (x : Check) : Nat := if x.verdict.isOk then x.fixes else 0

/-- **The report as it is made**: that of the last try, with the outcome of the fallback. -/
inductive Reported (checks : List Check) (spare : Option StepOutcome) (result : StepResult) : Prop
  | untried : checks = [] → result.status ≠ .fixed → result.attempts = 0 →
      Reported checks spare result
  | cancelled : result.status = .cancelled → Reported checks spare result
  | tried {earlier : List Check} {x : Check} : checks = earlier ++ [x] → result.status ≠ .cancelled →
      (result.status = .fixed ↔
        0 < x.counted ∧ (x.verdict = .ok none ∨ ∃ o ∈ spare, o.result.success)) →
      result.attempts = x.counted → Reported checks spare result

theorem countsAll_concat {earlier : List Check} {x : Check} : CountsAll (earlier ++ [x]) ↔
    x.counted = ((earlier ++ [x]).map Check.fixes).sum := by
  have hsum : (earlier.map Check.fixes).sum = 0 ↔ ∀ y ∈ earlier, y.fixes = 0 :=
    List.sum_eq_zero_iff_forall_eq_nat.trans List.forall_mem_map
  have hiff : CountsAll (earlier ++ [x]) ↔
      (∀ y ∈ earlier, y.fixes = 0) ∧ (x.verdict.isOk = false → x.fixes = 0) := by
    constructor
    · rintro ⟨hearlier, hlast⟩
      rw [List.dropLast_concat] at hearlier
      exact ⟨hearlier, hlast x (by simp)⟩
    · rintro ⟨hearlier, hlast⟩
      refine ⟨by rwa [List.dropLast_concat], fun y hy => ?_⟩
      obtain rfl : x = y := by simpa using hy
      exact hlast
  rw [hiff, ← hsum, List.map_append, List.map_singleton, List.sum_append, List.sum_singleton,
    Check.counted]
  cases x.verdict.isOk with
  | true =>
    rw [if_pos rfl]
    constructor
    · rintro ⟨h, -⟩
      omega
    · intro h
      exact ⟨by omega, nofun⟩
  | false =>
    rw [if_neg Bool.false_ne_true]
    constructor
    · rintro ⟨h, hlast⟩
      have hlast := hlast rfl
      omega
    · intro h
      exact ⟨by omega, fun _ => by omega⟩

theorem standsIn_concat {earlier : List Check} {x : Check} {spare : Option StepOutcome} :
    StandsIn (earlier ++ [x]) spare ↔
      0 < x.fixes ∧ (∃ f, x.verdict = .ok (some f)) ∧ ∃ o ∈ spare, o.result.success := by
  simp [StandsIn]

/-- **A report is true** exactly if no fix is left out of the count and no fallback stands in, unless the
step was cancelled. -/
theorem Reported.truthful_iff {checks : List Check} {spare : Option StepOutcome} {result : StepResult}
    (hr : Reported checks spare result) : Truthful checks result ↔
      result.status = .cancelled ∨ (CountsAll checks ∧ ¬StandsIn checks spare) := by
  cases hr with
  | untried hnil hfixed hattempts =>
    subst hnil
    refine iff_of_true ⟨fun h => absurd h hfixed, fun _ => hattempts⟩ (.inr ⟨⟨nofun, nofun⟩, ?_⟩)
    rintro ⟨x, hx, -⟩
    contradiction
  | cancelled hcancelled =>
    refine iff_of_true ⟨fun h => ?_, fun h => absurd hcancelled h⟩ (.inl hcancelled)
    rw [hcancelled] at h
    contradiction
  | @tried earlier x hchecks hnot hfixed hattempts =>
    subst hchecks
    have htruthful : Truthful (earlier ++ [x]) result ↔
        (0 < x.counted ∧ (x.verdict = .ok none ∨ ∃ o ∈ spare, o.result.success) →
          x.verdict = .ok none ∧ 0 < x.fixes) ∧ CountsAll (earlier ++ [x]) := by
      rw [← hfixed, countsAll_concat, ← hattempts]
      constructor
      · rintro ⟨hf, ha⟩
        exact ⟨fun h => by simpa using hf h, ha hnot⟩
      · rintro ⟨hf, ha⟩
        exact ⟨fun h => by simpa using hf h, fun _ => ha⟩
    rw [htruthful, standsIn_concat, or_iff_right hnot, and_comm]
    refine and_congr_right fun _ => ?_
    rw [Check.counted]
    cases x.verdict with
    | error e => simp [Except.isOk, Except.toBool]
    | ok failure => cases failure <;> simp [Except.isOk, Except.toBool]

/-- What a step reports that was tried, of the attempt that its tries and its fallback came to. -/
theorem Step.Closes.reports (hs : s.Closes a n d o) (htype : s.type = .validate) :
    o.result.attempts = a.fixes ∧
      (o.result.status = .fixed ↔ 0 < a.fixes ∧ a.outcome.isOk) ∧
      (o.result.status = .cancelled ↔ a.outcome = .error .cancelled) := by
  refine ⟨?_, ?_, ?_⟩
  · cases hs with
    | completed _ | cancelled _ | pardoned _ _ _ | failed _ _ _ => exact if_pos htype
  · cases hs with
    | completed houtcome =>
      rw [houtcome, Nat.pos_iff_ne_zero]
      show (if a.fixes = 0 then StepStatus.passed else .fixed) = .fixed ↔ _
      split <;> simp [*, Except.isOk, Except.toBool]
    | cancelled houtcome | pardoned houtcome _ _ | failed houtcome _ _ =>
      rw [houtcome]
      exact iff_of_false nofun (fun h => Bool.noConfusion h.2)
  · cases hs with
    | completed houtcome =>
      rw [houtcome]
      refine iff_of_false ?_ nofun
      show (if a.fixes = 0 then StepStatus.passed else .fixed) ≠ .cancelled
      split <;> nofun
    | cancelled houtcome => exact iff_of_true rfl houtcome
    | pardoned houtcome hnot _ | failed houtcome hnot _ =>
      rw [houtcome]
      exact iff_of_false nofun fun h => hnot (Except.error.inj h)

/-- A try that was not cancelled says what is counted of it, and succeeded if its verdict was clean. -/
theorem Attempt.Says.counted {x : Check} (hs : a.Says x.fixes x.verdict)
    (hnot : a.outcome ≠ .error .cancelled) :
    a.fixes = x.counted ∧ (a.outcome.isOk ↔ x.verdict = .ok none) := by
  obtain ⟨fixes, verdict⟩ := x
  cases hs with
  | passed houtcome hfixes =>
    rw [houtcome]
    exact ⟨hfixes, iff_of_true rfl rfl⟩
  | failed houtcome hfixes =>
    rw [houtcome]
    exact ⟨hfixes, iff_of_false Bool.false_ne_true nofun⟩
  | unusable houtcome hfixes =>
    rw [houtcome]
    exact ⟨hfixes, iff_of_false Bool.false_ne_true nofun⟩
  | cancelled houtcome _ => exact absurd houtcome hnot

namespace Runner

/-- A try of a validate step makes its fixes and comes to its verdict. -/
theorem kindOf_judged {name : String}
    (u : (r.kindOf execute c scope name (.validate stages retry fix)).Unfolds h a) : ∃ x : Check,
      Judged (r.runStages stages) (r.fallbackOf execute c scope fix) 0 x.fixes x.verdict h ∧
        a.Says x.fixes x.verdict := by
  rw [kindOf] at u
  obtain ⟨count, -, verdict, hjudged, hsays⟩ := validating_judged u
  rw [Nat.zero_add] at hsays
  exact ⟨⟨count, verdict⟩, hjudged, hsays⟩

/-- So the tries of a validate step are known in brief. -/
theorem Tried.checks {name : String}
    (ht : Tried r policy (r.kindOf execute c scope name (.validate stages retry fix)) 0 (as ++ [b]) h) :
    ∃ (earlier : List Check) (x : Check), b.Says x.fixes x.verdict ∧
      (∀ i y, (earlier ++ [x])[i]? = some y → ∃ k,
        exchanges k = Trace.within (exchanges h) (.attempt i) ∧
        Judged (r.runStages stages) (r.fallbackOf execute c scope fix) 0 y.fixes y.verdict k) ∧
      ∀ i, (earlier ++ [x]).length ≤ i → Trace.within (exchanges h) (.attempt i) = [] := by
  obtain ⟨hat, hout⟩ := ht.within
  simp only [Nat.zero_add] at hat hout
  have hone : ∀ i b', (as ++ [b])[i]? = some b' → ∃ x : Check, b'.Says x.fixes x.verdict ∧ ∃ k,
      exchanges k = Trace.within (exchanges h) (.attempt i) ∧
      Judged (r.runStages stages) (r.fallbackOf execute c scope fix) 0 x.fixes x.verdict k := by
    intro i b' hb
    obtain ⟨k, hk, u⟩ := hat i b' hb
    obtain ⟨x, hjudged, hsays⟩ := kindOf_judged u
    exact ⟨x, hsays, k, hk, hjudged⟩
  obtain ⟨x, hsays, hx⟩ := hone as.length b List.getElem?_concat_length
  have hearlier (i : Fin as.length) : ∃ y : Check, ∃ k,
      exchanges k = Trace.within (exchanges h) (.attempt i) ∧
      Judged (r.runStages stages) (r.fallbackOf execute c scope fix) 0 y.fixes y.verdict k := by
    have hi : (as ++ [b])[i.val]? = some as[i] := by
      rw [List.getElem?_append_left i.isLt]
      exact List.getElem?_eq_getElem i.isLt
    obtain ⟨y, -, hy⟩ := hone i _ hi
    exact ⟨y, hy⟩
  choose f hf using hearlier
  refine ⟨List.ofFn f, x, hsays, fun i y hy => ?_, fun i hi => hout i (.inr ?_)⟩
  · rw [List.getElem?_append, List.length_ofFn] at hy
    split at hy
    · rename_i hlt
      rw [List.getElem?_ofFn, dif_pos hlt] at hy
      obtain rfl := Option.some.inj hy
      exact hf ⟨i, hlt⟩
    · obtain ⟨hi, rfl⟩ := List.getElem?_eq_some_iff.1 hy
      rw [List.length_singleton] at hi
      obtain rfl : i = as.length := by omega
      simpa using hx
  · simpa using hi

/-- **Every validate step** has its tries and its fallback in its trace, and reports the last try. -/
theorem step_reported (hkind : s.kind = .validate stages retry fix)
    (u : (r.step execute c scope s).Unfolds h o) : ∃ checks spare,
      Checked r execute c scope s stages fix (exchanges h) checks spare ∧
      Reported checks spare o.result := by
  have htype : s.type = .validate := by rw [Step.type, hkind]; rfl
  cases step_course u with
  | skipped hskip uend =>
    obtain ⟨now, d, rfl, rfl⟩ := finish_unfolds uend
    exact ⟨[], none, ⟨nofun, fun _ _ => rfl, nofun, fun _ => rfl⟩, .untried rfl nofun rfl⟩
  | cancelled hskip uend =>
    obtain ⟨now, d, rfl, rfl⟩ := finish_unfolds uend
    exact ⟨[], none, ⟨nofun, fun _ _ => rfl, nofun, fun _ => rfl⟩, .cancelled rfl⟩
  | @tried began n a a' h k l _ hskip utries ufallback uend =>
    obtain ⟨now, d, rfl, rfl⟩ := finish_unfolds uend
    rw [hkind] at utries
    obtain ⟨as, b, htried, hends, -, -⟩ := retried_last utries
    obtain ⟨earlier, x, hsays, htries, hothers⟩ := htried.checks
    obtain ⟨hfixes, spare, hspare, hnone, hbare, hok, hcancelled⟩ :=
      (recovering_unfolds ufallback).spare
    obtain ⟨hattempts, hfixed, hstatus⟩ := (s.conclude_closes a' n d).reports htype
    -- what the step does of its own is at no layer
    have hwithin (l : Layer) :
        Trace.within (exchanges (.asked (Entry.of .now began) :: pollTurn false :: startTurn scope s ::
          (h ++ (k ++ endTurns scope s now { (s.conclude a' n).result with durationMs := d })))) l =
        Trace.within (exchanges h) l ++ Trace.within (exchanges k) l := by
      show Trace.within (exchanges (h ++ (k ++ _))) l = _
      rw [exchanges_append, exchanges_append, Trace.within_append, Trace.within_append]
      exact congrArg _ (List.append_nil _)
    have hattempt (i : Nat) := hwithin (.attempt i)
    simp only [hbare, List.append_nil] at hattempt
    have hfallback := hwithin .fallback
    rw [Trace.within_eq_nil_iff.2 (fallback_not_mem_layers utries.traces), List.nil_append] at hfallback
    simp only [← hattempt] at htries hothers
    rw [← hfallback] at hspare hnone
    refine ⟨earlier ++ [x], spare, ⟨htries, hothers, hspare, hnone⟩, ?_⟩
    by_cases houtcome : a'.outcome = .error .cancelled
    · exact .cancelled (hstatus.2 houtcome)
    · obtain ⟨heq, hfixeq⟩ := hends.resolve_right fun h => houtcome (hcancelled h)
      obtain ⟨hcounted, hclean⟩ := hsays.counted fun h => houtcome (hcancelled (heq.trans h))
      rw [heq, hclean] at hok
      rw [hfixes, hfixeq, hcounted] at hattempts hfixed
      rw [hok] at hfixed
      exact .tried rfl (fun h => houtcome (hstatus.1 h)) hfixed hattempts

/-- The fixes of a try are those that it was told to make. -/
theorem Checked.fixes_eq {checks : List Check} {spare : Option StepOutcome} {i : Nat} {x : Check}
    (hc : Checked r execute c scope s stages fix t checks spare) (hx : checks[i]? = some x) :
    x.fixes = Trace.goAheads (t.within (.attempt i)) := by
  obtain ⟨l, hl, hjudged⟩ := hc.tries i x hx
  rw [← hl]
  exact (hjudged.fixing.goAheads
    ((RunScript.Works.compositional fun _ hq => hq).runStages r stages).asks).symm

/-- **When the report of a validate step is true.** Whatever its decorations, its registry and its
components are: the report follows what happened in the step exactly if the step was cancelled, or no
fix is left out of the count (only the last try made any, and none before an unregistered stage) and no
fallback stands in for a last try that made fixes and failed. -/
theorem step_truthful_iff (hkind : s.kind = .validate stages retry fix)
    (u : (r.step execute c scope s).Unfolds h o) : ∃ checks spare,
      Checked r execute c scope s stages fix (exchanges h) checks spare ∧
      (Truthful checks o.result ↔
        o.result.status = .cancelled ∨ (CountsAll checks ∧ ¬StandsIn checks spare)) := by
  obtain ⟨checks, spare, hchecked, hreported⟩ := step_reported hkind u
  exact ⟨checks, spare, hchecked, hreported.truthful_iff⟩

end Runner

namespace Sample

/-- A validation that is fixed in vain in each of two tries, and has a fallback. -/
def vain : Step where
  name := "checks"
  kind := .validate ["boom"] 1 (some (Step.call "fix" "make"))
  retryPolicy := some { maxAttempts := 2 }
  onError := some (Step.call "spare" "make")

/-- What happens in it. -/
def vainly : History (Inquiry String) Inquiry.Answer × StepOutcome :=
  follow answers 0 (rescuer.step (rescuer.execute 1) {} (.root "flow" "1" false) vain)

theorem vainly_unfolds :
    (rescuer.step (rescuer.execute 1) {} (.root "flow" "1" false) vain).Unfolds vainly.1 vainly.2 :=
  follow_unfolds answers 0 _

end Sample

namespace Runner

open Sample

/-- The fallback makes the step fixed, though no pass was clean. -/
theorem step_truthful_iff_vain : ∃ (h : History (Inquiry String) Inquiry.Answer) (o : StepOutcome),
    vain.kind = .validate ["boom"] 1 (some (Step.call "fix" "make")) ∧
    (rescuer.step (rescuer.execute 1) {} (.root "flow" "1" false) vain).Unfolds h o ∧
    o.result.status = .fixed ∧ o.result.attempts = 1 ∧ ∃ checks spare,
      Checked rescuer (rescuer.execute 1) {} (.root "flow" "1" false) vain ["boom"]
        (some (Step.call "fix" "make")) (exchanges h) checks spare ∧
      (Truthful checks o.result ↔
        o.result.status = .cancelled ∨ (CountsAll checks ∧ ¬StandsIn checks spare)) :=
  ⟨vainly.1, vainly.2, rfl, vainly_unfolds, by decide +kernel, by decide +kernel,
    step_truthful_iff rfl vainly_unfolds⟩

/-- **Not every report is true.** Two tries make a fix each, and the step reports one. -/
theorem not_step_truthful : ¬∀ (r : Runner String) (levels : Nat) (c : Context) (scope : Scope)
    (s : Step) (stages : List String) (retry : Nat) (fix : Option Step)
    (h : History (Inquiry String) Inquiry.Answer) (o : StepOutcome) (checks : List Check)
    (spare : Option StepOutcome), s.kind = .validate stages retry fix →
    (r.step (r.execute levels) c scope s).Unfolds h o →
    Checked r (r.execute levels) c scope s stages fix (exchanges h) checks spare →
    Truthful checks o.result := by
  intro hall
  obtain ⟨checks, spare, hchecked, -⟩ := step_reported rfl vainly_unfolds
  have hreport := hall _ 1 _ _ vain _ _ _ _ _ checks spare rfl vainly_unfolds hchecked
  have hattempts : vainly.2.result.attempts = 1 := by decide +kernel
  have hstatus : vainly.2.result.status ≠ .cancelled := by decide +kernel
  have hsum := hattempts.symm.trans (hreport.attempts hstatus)
  have hone (i : Fin 2) :
      Trace.goAheads (Trace.within (exchanges vainly.1) (.attempt i)) = 1 := by
    revert i
    decide +kernel
  have hfixes {i : Fin 2} {x : Check} (hx : checks[i.val]? = some x) : x.fixes = 1 :=
    (hchecked.fixes_eq hx).trans (hone i)
  have hlength : 2 ≤ checks.length := by
    by_contra hshort
    have hnone := congrArg Trace.goAheads (hchecked.others 1 (by omega))
    exact absurd (hnone.symm.trans (hone 1)) nofun
  match checks, hlength with
  | x :: y :: rest, _ =>
    have hx : x.fixes = 1 := hfixes (i := 0) rfl
    have hy : y.fixes = 1 := hfixes (i := 1) rfl
    rw [List.map_cons, List.map_cons, List.sum_cons, List.sum_cons, hx, hy] at hsum
    omega

end Runner

end Stepflow
