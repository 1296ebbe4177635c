import Stepflow.Proofs.Document.Order
import Stepflow.Proofs.Run.Settling
import Stepflow.Proofs.Run.Telling

/-!
# What a group gathers

Where components reply by what they are given and nothing is cancelled, every step inside a group comes to
one outcome, up to times, and so does every try of the group: what it makes of these outcomes. From there on
all is decided, how often the group is tried, whether its fallback is run, and what it comes to in the end.
`Step.Gathers` says what this is: the results of the members in their order, and a failure that names those
that failed, or an object of their outputs.
-/

namespace Stepflow

open Script

variable {κ : Type} {r : Runner κ} {f : CallOf κ → Except String Reply} {levels : Nat} {c : Context}
  {scope : Scope} {s : Step} {members : List Step} {h : History (Inquiry κ) Inquiry.Answer}
  {o : StepOutcome} {a a' : Attempt}

/-! ## What steps come to -/

/-- The results in some outcomes of steps. -/
abbrev resultsOf (out : Step → StepOutcome) (s : Step) : StepResult := (out s).result

/-- **What steps come to** in all faithful histories, without times. -/
structure Runner.Settled (r : Runner κ) (f : CallOf κ → Except String Reply) (levels : Nat) (c : Context)
    (scope : Scope) (out : Step → StepOutcome) : Prop where
  settled : ∀ {s h o}, (r.step (r.execute levels) c scope s).Unfolds h o → Faithful f h → o.gist = out s
  name : ∀ s, (out s).result.name = s.name
  spared : ∀ s, (out s).Spared
  names : ∀ s, (Workflow.namesIn [s]).Nodup → ∀ e ∈ (out s).effects.outputs, e.1 ∈ Workflow.namesIn [s]

theorem Runner.exists_settled (r : Runner κ) (f : CallOf κ → Except String Reply) (levels : Nat)
    (c : Context) (scope : Scope) : ∃ out, r.Settled f levels c scope out := by
  choose h o u hf using fun s => exists_faithful f (r.step (r.execute levels) c scope s)
  refine ⟨fun s => (o s).gist, ⟨fun v hf' => step_settles levels _ c scope _ _ _ _ v (u _) hf' (hf _),
    fun s => ?_, fun s => ?_, fun s hn e he => ?_⟩⟩
  · have hkeeps := step_keeps (r := r) (execute_keeps levels) (fun _ _ _ => execute_prompt levels) s c scope
    exact (StepResult.gist_name _).trans (hkeeps _ _ (u s).traces).1
  · have hspared := step_spares levels s c scope _ _ (u s) (hf s).undisturbed
    rwa [StepOutcome.Spared, StepOutcome.gist, StepResult.gist_status]
  · obtain ⟨new, hnew, htells⟩ := step_tells s hn c scope _ _ (u s).traces
    have heq : (o s).effects.outputs = new := hnew
    exact htells.mem_names (heq ▸ he)

/-! ## What a group comes to -/

namespace Runner

variable {out : Step → StepOutcome}

/-- **A try of a group** comes to what its members come to. -/
theorem Settled.group (hout : r.Settled f levels c scope out) (hn : (members.map Step.name).Nodup)
    {name : String}
    (u : (r.kindOf (r.execute levels) c scope name (.parallel members)).Unfolds h a)
    (hf : Faithful f h) : a.gist = .ofMembers (members.map out) := by
  have hnone : firstRepeated? [] ((members.map (r.plan (r.execute levels) c scope)).map Planned.name) =
      none := by
    rw [List.map_map]
    exact firstRepeated?_eq_none hn nofun
  rw [kindOf, membersOf_eq, grouping, hnone] at u
  obtain ⟨os, uall, rfl⟩ := unfolds_andThen_done.1 u
  have hall := members_of_all uall
  rw [List.zipIdx_map, List.map_map, List.forall₂_map_left_iff] at hall
  -- what each member does is a part of what the group does, one layer further in
  have hgists : (members.zipIdx.map Prod.fst).map out = os.map StepOutcome.gist := by
    rw [List.map_map, ← List.forall₂_eq_eq_eq, List.forall₂_map_left_iff, List.forall₂_map_right_iff]
    refine hall.imp fun m o hm => ?_
    obtain ⟨k, v, hsub, hstill⟩ := hm
    obtain ⟨l, w, rfl⟩ := RunScript.unfolds_under.1 v
    exact (hout.settled w (hf.of_subset hsub (hstill hf.undisturbed.sleeps)).of_into).symm
  rw [Attempt.ofMembers_gist, ← hgists, List.zipIdx_map_fst]

section

variable {attempt : RunScript κ Attempt} {policy : Option RetryPolicy} {one : Attempt}

theorem Rounds.settled {first : Nat} {as : List Attempt} (hr : Rounds r policy attempt first as h)
    (hone : ∀ {h a}, attempt.Unfolds h a → Faithful f h → a.gist = one) (hf : Faithful f h) :
    ∀ a ∈ as, a.gist = one := by
  induction hr with
  | nil => exact List.forall_mem_nil _
  | cons _ v _ _ _ ih =>
    obtain ⟨k, w, rfl⟩ := RunScript.unfolds_under.1 v
    exact List.forall_mem_cons.2 ⟨hone w hf.left.of_into, ih hf.right.right⟩

theorem LastTry.settled {limit number : Nat} {effects : Effects}
    (hl : LastTry r policy attempt limit number effects h a)
    (hone : ∀ {h a}, attempt.Unfolds h a → Faithful f h → a.gist = one) (hf : Faithful f h) :
    (one.isFailure → number + 1 = limit) ∧ a.gist = { one with effects := effects ++ one.effects } := by
  cases hl with
  | ended v hends =>
    obtain ⟨k, w, rfl⟩ := RunScript.unfolds_under.1 v
    obtain rfl := hone w hf.of_into
    exact ⟨hends, rfl⟩
  | interrupted _ _ _ _ vwait => exact absurd (wait_spares _ _ _ _ vwait hf.right.undisturbed) nofun

/-- **Tries that always come to the same**: there is one if it does not fail, and as many as are allowed if
it does. The effects add up. -/
theorem retried_settled {n : Nat} (hone : ∀ {h a}, attempt.Unfolds h a → Faithful f h → a.gist = one)
    (u : (r.retried policy attempt).Unfolds h (a, n)) (hf : Faithful f h) :
    n = (if one.isFailure then maxTries policy else 1) ∧
      a.gist = { one with effects := .concat (List.replicate n one.effects) } := by
  obtain ⟨as, k, l, hrounds, hle, hlast, rfl, rfl⟩ := retried_unfolds u
  have has := hrounds.settled hone hf.left
  obtain ⟨hends, hgist⟩ := hlast.settled hone hf.right
  have heffects : effectsOf as = .concat (List.replicate as.length one.effects) := by
    refine congrArg Effects.concat (List.eq_replicate_iff.2 ⟨List.length_map _, fun e he => ?_⟩)
    obtain ⟨b, hb, rfl⟩ := List.mem_map.1 he
    rw [← has b hb]
    rfl
  constructor
  · split
    · exact hends ‹_›
    · rename_i hnot
      -- a try that does not fail is followed by none
      cases as with
      | nil => rfl
      | cons b as =>
        have hfailed := hrounds.failed b List.mem_cons_self
        have hb := has b List.mem_cons_self
        subst hb
        exact absurd hfailed hnot
  · rw [hgist, heffects, List.replicate_succ', Effects.concat_append, Effects.concat_cons,
      Effects.concat_nil, Effects.append_empty]

end

end Runner

/-- What a step makes of its tries, if its fallback comes to `out`. -/
def Attempt.recoveredBy (a : Attempt) (out : Step → StepOutcome) (fallback : Option Step) : Attempt :=
  match fallback, a.outcome with
  | some f, .error e => if e.isCancelled then a else a.recovered e f.name (out f)
  | _, _ => a

theorem Attempt.recoveredBy_ok {v : Value} {out : Step → StepOutcome} {fallback : Option Step}
    (hend : a.outcome = .ok v) : a.recoveredBy out fallback = a := by
  unfold recoveredBy
  rw [hend]
  cases fallback <;> rfl

theorem Attempt.recoveredBy_error {e : StepError} {out : Step → StepOutcome} {fallback : Step}
    (hend : a.outcome = .error e) (he : e ≠ .cancelled) :
    a.recoveredBy out (some fallback) = a.recovered e fallback.name (out fallback) := by
  unfold recoveredBy
  rw [hend]
  exact if_neg (mt StepError.isCancelled_iff.1 he)

/-- **What a group comes to**, if its members and its fallback come to `out`. -/
def Step.gather (s : Step) (out : Step → StepOutcome) (members : List Step) : StepOutcome :=
  let one := Attempt.ofMembers (members.map out)
  let tries := if one.isFailure then maxTries s.retryPolicy else 1
  s.conclude
    (Attempt.recoveredBy { one with effects := .concat (List.replicate tries one.effects) } out s.onError)
    tries

namespace Runner

variable {out : Step → StepOutcome}

theorem Settled.recovering (hout : r.Settled f levels c scope out)
    (u : (recovering (s.onError.map (r.plan (r.execute levels) c scope)) a).Unfolds h a')
    (hf : Faithful f h) : a'.gist = a.gist.recoveredBy out s.onError := by
  obtain ⟨outcome, fixes, children, effects⟩ := a
  generalize s.onError = fallback at u ⊢
  match fallback, outcome with
  | none, _ | some _, .ok _ =>
    obtain ⟨-, rfl⟩ := unfolds_done.1 u
    rfl
  | some f, .error e =>
    unfold Runner.recovering at u
    dsimp only [Option.map_some] at u
    split at u
    · rename_i hcancelled
      obtain ⟨-, rfl⟩ := unfolds_done.1 u
      exact (if_pos hcancelled).symm
    · rename_i hnot
      obtain ⟨o, v, rfl⟩ := unfolds_andThen_done.1 u
      obtain ⟨k, w, rfl⟩ := RunScript.unfolds_under.1 v
      rw [Attempt.recovered_gist, hout.settled w hf.of_into]
      exact (if_neg hnot).symm

theorem step_skipped {reason : Option String} {execute : Execute κ} (hskip : s.skipReason? c = some reason)
    (u : (r.step execute c scope s).Unfolds h o) : o.gist = { result := .skipped s reason } := by
  cases step_course u with
  | skipped hreason uend =>
    obtain ⟨now, d, rfl, -⟩ := finish_unfolds uend
    obtain rfl := Option.some.inj (hskip.symm.trans hreason)
    show StepOutcome.mk _ _ = StepOutcome.mk _ _
    rw [StepResult.gist_durationMs]
    rfl
  | cancelled hnone _ | tried hnone _ _ _ => rw [hskip] at hnone; contradiction

/-- **Every group** that is not held back gathers what its members come to. -/
theorem Settled.step (hout : r.Settled f levels c scope out) (hkind : s.kind = .parallel members)
    (hn : (members.map Step.name).Nodup) (hskip : s.skipReason? c = none)
    (u : (r.step (r.execute levels) c scope s).Unfolds h o) (hf : Faithful f h) :
    o.gist = s.gather out members := by
  cases step_course u with
  | skipped hreason _ => rw [hskip] at hreason; contradiction
  | cancelled _ _ => exact absurd hf.undisturbed.tail.pollTurn_eq nofun
  | @tried _ n a a' _ _ _ _ _ utries ufallback uend =>
    obtain ⟨now, d, rfl, -⟩ := finish_unfolds uend
    have hrest := hf.tail.tail.tail
    rw [hkind] at utries
    obtain ⟨htries, ha⟩ := retried_settled (fun v => hout.group hn v) utries hrest.left
    have ha' := hout.recovering ufallback hrest.right.left
    have hgist : (s.conclude a' n).gist = s.gather out members := by
      rw [Step.conclude_gist, ha', ha, htries]
      rfl
    rw [← hgist]
    show StepOutcome.mk _ _ = StepOutcome.mk _ _
    rw [StepResult.gist_durationMs]

end Runner

/-! ## What it says -/

/-- The names of the steps that fail. -/
def failing (came : Step → StepResult) (ss : List Step) : List String :=
  (ss.filter fun s => (came s).status = .failed).map Step.name

theorem failing_eq_nil_iff {came : Step → StepResult} {ss : List Step} :
    failing came ss = [] ↔ ∀ s ∈ ss, (came s).status ≠ .failed := by
  rw [failing, List.map_eq_nil_iff, List.filter_eq_nil_iff]
  simp only [decide_eq_true_eq]

theorem Step.conclude_ok {v : Value} (hend : a.outcome = .ok v) (n : Nat) :
    (s.conclude a n).result.status = (if a.fixes = 0 then .passed else .fixed) ∧
      (s.conclude a n).result.error = none ∧ (s.conclude a n).result.output = v ∧
      (s.conclude a n).result.children = a.children := by
  unfold conclude
  rw [hend]
  exact ⟨rfl, rfl, rfl, rfl⟩

theorem Step.conclude_error {e : StepError} (hend : a.outcome = .error e) (he : e ≠ .cancelled) (n : Nat) :
    (s.conclude a n).result.status = (if s.skipOnError then .skipped else .failed) ∧
      (s.conclude a n).result.error = some e.message ∧
      (s.conclude a n).result.children = a.children := by
  unfold conclude
  rw [hend]
  dsimp only
  rw [if_neg (mt StepError.isCancelled_iff.1 he)]
  exact ⟨rfl, rfl, rfl⟩

theorem StepOutcome.outcomeWith_of_success (ho : o.Spared) (hs : o.result.success = true)
    (wrap : String → StepError) : o.outcomeWith wrap = .ok o.result.output := by
  rw [outcomeWith, if_neg ho, if_pos hs]

theorem StepOutcome.outcomeWith_of_failure (ho : o.Spared) (hs : o.result.success = false)
    (wrap : String → StepError) : o.outcomeWith wrap = .error (wrap (o.result.error.getD "")) := by
  rw [outcomeWith, if_neg ho, hs, if_neg Bool.false_ne_true]

/-- **What a group comes to** where its members and its fallback come to `came`: its children are the
results of the members, in their order, with that of a fallback behind them. -/
inductive Step.Gathers (s : Step) (members : List Step) (came : Step → StepResult) (c : Context)
    (x : StepResult) : Prop
  /-- Its condition holds it back, and no member is run. -/
  | heldBack {reason : Option String} : s.HeldBack c reason → x = .skipped s reason →
      Gathers s members came c x
  /-- No member failed: its output has that of every member under the name of the member. -/
  | passed {fields : Fields} : (∀ reason, ¬s.HeldBack c reason) →
      (∀ m ∈ members, (came m).status ≠ .failed) → x.children = members.map came →
      x.status = .passed → x.error = none → x.output = .obj fields →
      (∀ name v, Table.get? fields name = some v ↔ ∃ m ∈ members, m.name = name ∧ (came m).output = v) →
      Gathers s members came c x
  /-- Some failed: its error names those. -/
  | failed : (∀ reason, ¬s.HeldBack c reason) → (∃ m ∈ members, (came m).status = .failed) →
      s.onError = none → x.children = members.map came →
      x.status = (if s.skipOnError then .skipped else .failed) →
      x.error = some (StepError.members (failing came members)).message → Gathers s members came c x
  /-- Some failed, and a fallback made up for it. -/
  | recovered {fallback : Step} : (∀ reason, ¬s.HeldBack c reason) →
      (∃ m ∈ members, (came m).status = .failed) → s.onError = some fallback →
      x.children = members.map came ++ [came fallback] → (came fallback).success → x.status = .passed →
      x.error = none → x.output = (came fallback).output → Gathers s members came c x
  /-- Some failed, and so did the fallback. -/
  | unrecovered {fallback : Step} : (∀ reason, ¬s.HeldBack c reason) →
      (∃ m ∈ members, (came m).status = .failed) → s.onError = some fallback →
      x.children = members.map came ++ [came fallback] → (came fallback).success = false →
      x.status = (if s.skipOnError then .skipped else .failed) →
      x.error = some (StepError.fallback fallback.name ((came fallback).error.getD "")
        (StepError.members (failing came members)).message).message → Gathers s members came c x

/-- **A group fails** exactly if a member does, where no fallback makes up for it. -/
theorem Step.Gathers.error_iff {came : Step → StepResult} {x : StepResult}
    (hx : s.Gathers members came c x) (hnot : ∀ reason, ¬s.HeldBack c reason) (hnone : s.onError = none) :
    x.error.isSome ↔ ∃ m ∈ members, (came m).status = .failed := by
  cases hx with
  | heldBack hheld _ => exact absurd hheld (hnot _)
  | passed _ hall _ _ herror _ _ =>
    rw [herror]
    exact ⟨nofun, fun ⟨m, hm, hfailed⟩ => absurd hfailed (hall m hm)⟩
  | failed _ hfails _ _ _ herror =>
    rw [herror]
    exact ⟨fun _ => hfails, fun _ => rfl⟩
  | recovered _ _ hsome _ _ _ _ _ => rw [hnone] at hsome; contradiction
  | unrecovered _ _ hsome _ _ _ _ => rw [hnone] at hsome; contradiction

namespace Runner.Settled

variable {out : Step → StepOutcome}

/-- What members come to that are not cancelled: a failure that names those that failed, or an object that
holds the output of each. -/
theorem ofMembers_outcome (hout : r.Settled f levels c scope out) (members : List Step) :
    (Attempt.ofMembers (members.map out)).outcome =
      if failing (resultsOf out) members = [] then
        .ok (.obj (Table.ofList (members.map fun m => (m.name, (out m).result.output))))
      else .error (.members (failing (resultsOf out) members)) := by
  have hnames : ((members.map out).map StepOutcome.result |>.filter fun r => r.status = .failed).map
      StepResult.name = failing (resultsOf out) members := by
    rw [List.map_map, List.filter_map, List.map_map, failing]
    exact List.map_congr_left fun m _ => hout.name m
  have hany : ((members.map out).map StepOutcome.result).any (fun r => r.status = .cancelled) = false := by
    simpa using fun m _ => hout.spared m
  have houtputs : ((members.map out).map StepOutcome.result).map (fun r => (r.name, r.output)) =
      members.map fun m => (m.name, (out m).result.output) := by
    rw [List.map_map, List.map_map]
    exact List.map_congr_left fun m _ => congrArg (·, (out m).result.output) (hout.name m)
  unfold Attempt.ofMembers
  dsimp only
  rw [hnames, hany, houtputs]
  cases failing (resultsOf out) members <;> rfl

/-- The tries of a group are as one of them, but for their effects. -/
theorem gather_eq (hout : r.Settled f levels c scope out) (s : Step) (members : List Step) :
    ∃ (a : Attempt) (n : Nat), s.gather out members = s.conclude (a.recoveredBy out s.onError) n ∧
      a.outcome = (if failing (resultsOf out) members = [] then
        .ok (.obj (Table.ofList (members.map fun m => (m.name, (out m).result.output))))
      else .error (.members (failing (resultsOf out) members))) ∧
      a.fixes = 0 ∧ a.children = members.map (resultsOf out) :=
  ⟨_, _, rfl, hout.ofMembers_outcome members, rfl, List.map_map⟩

theorem gather_passed (hout : r.Settled f levels c scope out) (hn : (members.map Step.name).Nodup)
    (hnot : ∀ reason, ¬s.HeldBack c reason) (hnone : failing (resultsOf out) members = []) :
    s.Gathers members (resultsOf out) c (s.gather out members).result := by
  obtain ⟨a, n, hgather, hend, hfixes, hinner⟩ := hout.gather_eq s members
  have hnames : ((members.map fun m => (m.name, (out m).result.output)).map Prod.fst).Nodup := by
    rw [List.map_map]
    exact hn
  rw [if_pos hnone] at hend
  obtain ⟨hstatus, herror, houtput, hchildren⟩ := s.conclude_ok hend n
  rw [hgather, Attempt.recoveredBy_ok hend]
  refine .passed hnot (failing_eq_nil_iff.1 hnone) (hchildren.trans hinner)
    (by rw [hstatus, hfixes]; rfl) herror houtput fun name v => ?_
  rw [Table.get?_ofList_iff hnames, List.mem_map]
  simp only [Prod.mk.injEq]

theorem gather_failed (hout : r.Settled f levels c scope out) (hnot : ∀ reason, ¬s.HeldBack c reason)
    (hsome : failing (resultsOf out) members ≠ []) :
    s.Gathers members (resultsOf out) c (s.gather out members).result := by
  obtain ⟨a, n, hgather, hend, hfixes, hinner⟩ := hout.gather_eq s members
  have hfails : ∃ m ∈ members, (resultsOf out m).status = .failed := by
    by_contra hno
    exact hsome (failing_eq_nil_iff.2 fun m hm hfailed => hno ⟨m, hm, hfailed⟩)
  rw [if_neg hsome] at hend
  rw [hgather]
  cases hfallback : s.onError with
  | none =>
    obtain ⟨hstatus, herror, hchildren⟩ := s.conclude_error hend nofun n
    exact .failed hnot hfails hfallback (hchildren.trans hinner) hstatus herror
  | some fallback =>
    have hspared := hout.spared fallback
    have hchildren : a.children ++ [(out fallback).result] =
        members.map (resultsOf out) ++ [resultsOf out fallback] := by rw [hinner]
    rw [Attempt.recoveredBy_error hend nofun]
    cases hsuccess : (out fallback).result.success with
    | true =>
      have houtcome := StepOutcome.outcomeWith_of_success hspared hsuccess
        fun error => .fallback fallback.name error (StepError.members (failing (resultsOf out) members)).message
      obtain ⟨hstatus, herror, houtput, hsame⟩ := s.conclude_ok (a := a.recovered _ _ _) houtcome n
      refine .recovered hnot hfails hfallback (hsame.trans hchildren) hsuccess ?_ herror houtput
      rw [hstatus]
      exact if_pos hfixes
    | false =>
      have houtcome := StepOutcome.outcomeWith_of_failure hspared hsuccess
        fun error => .fallback fallback.name error (StepError.members (failing (resultsOf out) members)).message
      obtain ⟨hstatus, herror, hsame⟩ := s.conclude_error (a := a.recovered _ _ _) houtcome nofun n
      exact .unrecovered hnot hfails hfallback (hsame.trans hchildren) hsuccess hstatus herror

/-- **A group gathers** what its members come to. -/
theorem gathers (hout : r.Settled f levels c scope out) (hkind : s.kind = .parallel members)
    (hn : (members.map Step.name).Nodup) (u : (r.step (r.execute levels) c scope s).Unfolds h o)
    (hf : Faithful f h) : s.Gathers members (resultsOf out) c o.result.gist := by
  cases hskip : s.skipReason? c with
  | some reason =>
    refine .heldBack (Step.skipReason?_eq_some_iff.1 hskip) ?_
    exact congrArg StepOutcome.result (step_skipped hskip u)
  | none =>
    have hgist : o.result.gist = (s.gather out members).result :=
      congrArg StepOutcome.result (hout.step hkind hn hskip u hf)
    have hnot := Step.skipReason?_eq_none_iff.1 hskip
    rw [hgist]
    by_cases hnone : failing (resultsOf out) members = []
    · exact hout.gather_passed hn hnot hnone
    · exact hout.gather_failed hnot hnone

end Runner.Settled

end Stepflow
