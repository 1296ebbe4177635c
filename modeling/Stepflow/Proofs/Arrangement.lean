import Stepflow.Proofs.Run.Gathering

/-!
# The order of the members of a group

The members of a group are run side by side, each in the context that the group was given, and what they
come to is put together by their names. So the order in which they are declared shows in what a group lists,
its children and the names in its error, and in nothing else. This needs that no two steps in the group have
one name, that nothing is cancelled, and that components reply by what they are given. The main statement is
`group_perm`.
-/

namespace Stepflow

open Script

variable {κ : Type} {r : Runner κ} {f : CallOf κ → Except String Reply} {levels : Nat} {c : Context}
  {scope : Scope} {s : Step} {members members' : List Step} {h : History (Inquiry κ) Inquiry.Answer}
  {o : StepOutcome} {a a' : Attempt}

/-! ## Outputs in any order -/

namespace Context

theorem setOutput_setOutputs {name : String} {as : List (String × Value)} (hd : ∀ a ∈ as, name ≠ a.1)
    (c : Context) (v : Value) :
    (c.setOutput name v).setOutputs as = (c.setOutputs as).setOutput name v := by
  induction as generalizing c with
  | nil => rfl
  | cons a as ih =>
    have hone : (c.setOutput name v).setOutput a.1 a.2 = (c.setOutput a.1 a.2).setOutput name v := by
      unfold setOutput
      rw [Table.insert_comm (hd a List.mem_cons_self)]
    show ((c.setOutput name v).setOutput a.1 a.2).setOutputs as = _
    rw [hone, ih fun b hb => hd b (List.mem_cons_of_mem _ hb)]
    rfl

/-- Outputs of different names may be set in either order. -/
theorem setOutputs_comm {as bs : List (String × Value)} (hd : ∀ a ∈ as, ∀ b ∈ bs, a.1 ≠ b.1)
    (c : Context) : (c.setOutputs as).setOutputs bs = (c.setOutputs bs).setOutputs as := by
  induction as generalizing c with
  | nil => rfl
  | cons a as ih =>
    show ((c.setOutput a.1 a.2).setOutputs as).setOutputs bs = _
    rw [ih fun b hb => hd b (List.mem_cons_of_mem _ hb), setOutput_setOutputs (hd a List.mem_cons_self)]
    rfl

end Context

namespace Effects

/-- **The same outputs are set**, in whatever context. -/
def SetSame (e e' : Effects) : Prop := ∀ c : Context, c.setOutputs e.outputs = c.setOutputs e'.outputs

theorem SetSame.refl (e : Effects) : e.SetSame e := fun _ => rfl

theorem SetSame.append {a a' b b' : Effects} (ha : a.SetSame a') (hb : b.SetSame b') :
    (a ++ b).SetSame (a' ++ b') := fun c => by
  rw [outputs_append, outputs_append, Context.setOutputs_append, Context.setOutputs_append, ha, hb]

theorem SetSame.replicate {a a' : Effects} (ha : a.SetSame a') (n : Nat) :
    (concat (List.replicate n a)).SetSame (concat (List.replicate n a')) := by
  induction n with
  | zero => exact .refl _
  | succ n ih => exact ha.append ih

theorem setOutputs_concat (c : Context) (es : List Effects) :
    c.setOutputs (concat es).outputs = es.foldl (fun c e => c.setOutputs e.outputs) c := by
  induction es generalizing c with
  | nil => rfl
  | cons e es ih => rw [concat_cons, outputs_append, Context.setOutputs_append, ih, List.foldl_cons]

/-- **Effects that set outputs of different names** set the same in any order. -/
theorem concat_perm {es es' : List Effects} (hp : es.Perm es')
    (hd : ∀ e ∈ es, ∀ e' ∈ es, e = e' ∨ ∀ a ∈ e.outputs, ∀ b ∈ e'.outputs, a.1 ≠ b.1) :
    (concat es).SetSame (concat es') := fun c => by
  rw [setOutputs_concat, setOutputs_concat]
  refine hp.foldl_eq' (fun e he e' he' c => ?_) c
  obtain rfl | hdifferent := hd e he e' he'
  · rfl
  · exact Context.setOutputs_comm hdifferent c

end Effects

/-! ## Either order -/

/-- **Tries end alike**: with the same output, or both with a failure. -/
inductive SameEnd : Except StepError Value → Except StepError Value → Prop
  | ok (v : Value) : SameEnd (.ok v) (.ok v)
  | failed {e e' : StepError} : e ≠ .cancelled → e' ≠ .cancelled → SameEnd (.error e) (.error e')

/-- **Tries agree**: they end alike, after as many fixes, and set the same outputs. -/
structure Attempt.Agrees (a b : Attempt) : Prop where
  outcome : SameEnd a.outcome b.outcome
  fixes : a.fixes = b.fixes
  effects : a.effects.SetSame b.effects

/-- **Outcomes agree** in what the steps behind them see. -/
structure StepOutcome.Agrees (o o' : StepOutcome) : Prop where
  status : o.result.status = o'.result.status
  output : o.result.output = o'.result.output
  attempts : o.result.attempts = o'.result.attempts
  effects : o.effects.SetSame o'.effects

/-- How long things took does not matter for that. -/
theorem StepOutcome.Agrees.of_gist {o' : StepOutcome} (h : o.gist.Agrees o'.gist) : o.Agrees o' where
  status := by rw [← StepResult.gist_status, ← StepResult.gist_status o'.result]; exact h.status
  output := by rw [← StepResult.gist_output, ← StepResult.gist_output o'.result]; exact h.output
  attempts := by rw [← StepResult.gist_attempts, ← StepResult.gist_attempts o'.result]; exact h.attempts
  effects := h.effects

namespace Attempt.Agrees

variable {b : Attempt}

theorem isFailure_eq (hab : a.Agrees b) : a.isFailure = b.isFailure := by
  obtain ⟨_, _, _, _⟩ := a
  obtain ⟨_, _, _, _⟩ := b
  cases hab.outcome with
  | ok v => rfl
  | failed he he' =>
    unfold isFailure
    dsimp only
    rw [Bool.eq_false_iff.2 (mt StepError.isCancelled_iff.1 he),
      Bool.eq_false_iff.2 (mt StepError.isCancelled_iff.1 he')]

/-- So do all tries together, however many there are. -/
theorem replicate (hab : a.Agrees b) (n : Nat) :
    Agrees { a with effects := .concat (List.replicate n a.effects) }
      { b with effects := .concat (List.replicate n b.effects) } :=
  ⟨hab.outcome, hab.fixes, hab.effects.replicate n⟩

/-- And a fallback makes the same of both. -/
theorem recoveredBy {out : Step → StepOutcome} (hspared : ∀ s, (out s).Spared) (hab : a.Agrees b)
    (fallback : Option Step) : (a.recoveredBy out fallback).Agrees (b.recoveredBy out fallback) := by
  obtain ⟨_, _, _, _⟩ := a
  obtain ⟨_, _, _, _⟩ := b
  obtain ⟨houtcome, hfixes, heffects⟩ := hab
  cases fallback with
  | none => exact ⟨houtcome, hfixes, heffects⟩
  | some s =>
    cases houtcome with
    | ok v => exact ⟨.ok v, hfixes, heffects⟩
    | @failed e e' he he' =>
      rw [Attempt.recoveredBy_error rfl he, Attempt.recoveredBy_error rfl he']
      refine ⟨?_, hfixes, heffects.append (.refl _)⟩
      -- if the fallback fails too, the errors differ in what it was run for
      dsimp only [Attempt.recovered, StepOutcome.outcomeWith]
      rw [if_neg (hspared s), if_neg (hspared s)]
      split
      · exact .ok _
      · exact .failed nofun nofun

/-- And the step comes to the same. -/
theorem conclude (hab : a.Agrees b) {kind : StepKind Step}
    (htype : { s with kind }.type = s.type) (n : Nat) :
    (s.conclude a n).Agrees ({ s with kind }.conclude b n) := by
  obtain ⟨_, _, _, _⟩ := a
  obtain ⟨_, _, _, _⟩ := b
  obtain ⟨houtcome, hfixes, heffects⟩ := hab
  obtain rfl : _ = _ := hfixes
  cases houtcome with
  | ok v =>
    unfold Step.conclude
    rw [htype]
    exact ⟨rfl, rfl, rfl, heffects.append (.refl _)⟩
  | failed he he' =>
    unfold Step.conclude
    dsimp only
    rw [htype, if_neg (mt StepError.isCancelled_iff.1 he), if_neg (mt StepError.isCancelled_iff.1 he')]
    exact ⟨rfl, rfl, rfl, heffects⟩

end Attempt.Agrees

namespace Runner.Settled

variable {out : Step → StepOutcome}

/-- **The order of the members** does not matter for what the group comes to. -/
theorem ofMembers_agrees (hout : r.Settled f levels c scope out) (hp : members.Perm members')
    (hn : (Workflow.namesIn members).Nodup) :
    (Attempt.ofMembers (members.map out)).Agrees (Attempt.ofMembers (members'.map out)) where
  outcome := by
    have hfailing : failing (resultsOf out) members = [] ↔
        failing (resultsOf out) members' = [] := by
      rw [failing_eq_nil_iff, failing_eq_nil_iff]
      simp only [hp.mem_iff]
    rw [hout.ofMembers_outcome, hout.ofMembers_outcome]
    by_cases hnone : failing (resultsOf out) members = []
    · have hnames : ((members.map fun m => (m.name, (out m).result.output)).map Prod.fst).Nodup := by
        rw [List.map_map]
        exact hn.sublist (Step.map_name_sublist members)
      rw [if_pos hnone, if_pos (hfailing.1 hnone), Table.ofList_perm (hp.map _) hnames]
      exact .ok _
    · rw [if_neg hnone, if_neg (hfailing.not.1 hnone)]
      exact .failed nofun nofun
  fixes := rfl
  effects := by
    refine Effects.concat_perm ((hp.map out).map StepOutcome.effects) fun e he e' he' => ?_
    obtain ⟨_, hm, rfl⟩ := List.mem_map.1 he
    obtain ⟨i, hi, rfl⟩ := List.mem_map.1 hm
    obtain ⟨_, hm, rfl⟩ := List.mem_map.1 he'
    obtain ⟨j, hj, rfl⟩ := List.mem_map.1 hm
    have hone : ∀ i ∈ members, (Workflow.namesIn [i]).Nodup := fun i hi =>
      hn.sublist (Workflow.namesIn_sublist (List.singleton_sublist.2 hi))
    by_cases hij : i = j
    · exact .inl (by rw [hij])
    · refine .inr fun a ha b hb hab => hij ?_
      have hai := hout.names i (hone i hi) a ha
      have hbj := hout.names j (hone j hj) b hb
      exact Workflow.eq_of_mem_namesIn hn hi hj hai (hab ▸ hbj)

/-- And so it is with its tries, its fallback and its end. -/
theorem gather_agrees (hout : r.Settled f levels c scope out) (hp : members.Perm members')
    (hkind : s.kind = .parallel members) (hn : (Workflow.namesIn members).Nodup) :
    (s.gather out members).Agrees
      (Step.gather { s with kind := .parallel members' } out members') := by
  have hone := hout.ofMembers_agrees hp hn
  have htype : { s with kind := .parallel members' }.type = s.type := by
    rw [Step.type, Step.type, hkind]
    rfl
  have hlast := ((hone.replicate
    (if (Attempt.ofMembers (members.map out)).isFailure then maxTries s.retryPolicy else 1)).recoveredBy
      hout.spared s.onError).conclude htype
  unfold Step.gather
  dsimp only
  rw [← hone.isFailure_eq]
  exact hlast _

end Runner.Settled

namespace Runner

/-- **The order of the members of a group does not matter**, if all names in it are different, components
reply by what they are given, and nothing is cancelled. Every step then comes to one result, up to times,
however the turns fall; so in any order the group gathers the same results of its members, each in its place.
It comes to the same status and output, in as many tries, and the context after it is the same. If it is run
and has no fallback, it fails exactly if a member does. -/
theorem group_perm (r : Runner κ) (f : CallOf κ → Except String Reply) (levels : Nat) (c : Context)
    (scope : Scope) {s : Step} {members members' : List Step} (hkind : s.kind = .parallel members)
    (hp : members.Perm members') (hn : (Workflow.namesIn [s]).Nodup) :
    ∃ came : Step → StepResult,
      (∀ i, (∃ h o, (r.step (r.execute levels) c scope i).Unfolds h o ∧ Faithful f h) ∧
        ∀ h o, (r.step (r.execute levels) c scope i).Unfolds h o → Faithful f h →
          o.result.gist = came i) ∧
      ∀ h o h' o', (r.step (r.execute levels) c scope s).Unfolds h o → Faithful f h →
        (r.step (r.execute levels) c scope { s with kind := .parallel members' }).Unfolds h' o' →
        Faithful f h' →
        s.Gathers members came c o.result.gist ∧
          Step.Gathers { s with kind := .parallel members' } members' came c o'.result.gist ∧
          o.result.status = o'.result.status ∧ o.result.output = o'.result.output ∧
          o.result.attempts = o'.result.attempts ∧
          (∀ p : Place, (p.after o).context = (p.after o').context) ∧
          ((∀ reason, ¬s.HeldBack c reason) → s.onError = none →
            (o.result.error.isSome ↔ ∃ m ∈ members, (came m).status = .failed)) := by
  obtain ⟨out, hout⟩ := r.exists_settled f levels c scope
  refine ⟨resultsOf out, fun i => ⟨exists_faithful f _, fun h o u hf =>
    congrArg StepOutcome.result (hout.settled u hf)⟩, fun h o h' o' u hf u' hf' => ?_⟩
  have hinner : (Workflow.namesIn members).Nodup := by
    have hnested : s.nested = members ++ s.onError.toList := by rw [Step.nested, hkind]; rfl
    rw [Workflow.namesIn_singleton, hnested] at hn
    exact hn.of_cons.sublist (Workflow.namesIn_sublist (List.sublist_append_left ..))
  have hnames : (members.map Step.name).Nodup := hinner.sublist (Step.map_name_sublist members)
  have hnames' : (members'.map Step.name).Nodup := (hp.map _).nodup_iff.1 hnames
  have hagrees : o.Agrees o' := by
    refine .of_gist ?_
    cases hskip : s.skipReason? c with
    | some reason =>
      rw [step_skipped hskip u, step_skipped (s := { s with kind := .parallel members' }) hskip u']
      exact ⟨rfl, rfl, rfl, .refl _⟩
    | none =>
      rw [hout.step hkind hnames hskip u hf,
        hout.step (s := { s with kind := .parallel members' }) rfl hnames' hskip u' hf']
      exact hout.gather_agrees hp hkind hinner
  have hgathers := hout.gathers hkind hnames u hf
  have hgathers' := hout.gathers rfl hnames' u' hf'
  refine ⟨hgathers, hgathers', hagrees.status, hagrees.output, hagrees.attempts,
    fun p => hagrees.effects p.context, fun hnot hnone => ?_⟩
  rw [← hgathers.error_iff hnot hnone, StepResult.gist_error]

end Runner

namespace Sample

/-- A group of members in an order. -/
def groupOf (members : List Step) : Step := { Step.parallel "group" with kind := .parallel members }

/-- One that makes something, and two that fail. -/
def mixed : List Step := [Step.call "first" "make", Step.call "second" "boom", Step.call "third" "boom"]

/-- What the group of these members comes to in an order. -/
def mixedIn (members : List Step) : History (Inquiry String) Inquiry.Answer × StepOutcome :=
  follow answers 0
    (Runner.step { registry := registry } (Runner.execute { registry := registry } 0) {} (.root "w" "r" true)
      (groupOf members))

theorem mixedIn_faithful : ∃ f, ∀ members, Faithful f (mixedIn members).1 :=
  ⟨_, fun _ => faithful_follow (fun name => if name = "boom" then 1 else 0)
    (fun ticket => if ticket = 1 then .error "boom" else .ok { output := .str "made" }) 0 _⟩

end Sample

namespace Runner

open Sample

/-- A group in both orders: its children and the names in its error are in the order of the members, and
nothing else is. -/
theorem group_perm_reversed : (mixedIn mixed).2.result.children.map StepResult.name =
      ["first", "second", "third"] ∧
    (mixedIn mixed.reverse).2.result.children.map StepResult.name = ["third", "second", "first"] ∧
    (mixedIn mixed).2.result.error = some "parallel steps failed: second, third" ∧
    (mixedIn mixed.reverse).2.result.error = some "parallel steps failed: third, second" ∧
    (mixedIn mixed).2.result.status = (mixedIn mixed.reverse).2.result.status ∧
    ∀ p : Place, (p.after (mixedIn mixed).2).context = (p.after (mixedIn mixed.reverse).2).context := by
  obtain ⟨f, hf⟩ := mixedIn_faithful
  obtain ⟨came, -, hall⟩ := group_perm { registry := Sample.registry } f 0 {} (.root "w" "r" true)
    (s := groupOf mixed) rfl (List.reverse_perm mixed).symm (by decide)
  obtain ⟨-, -, hstatus, -, -, hcontext, -⟩ := hall _ _ _ _ (follow_unfolds answers 0 _) (hf mixed)
    (follow_unfolds answers 0 _) (hf mixed.reverse)
  exact ⟨by decide +kernel, by decide +kernel, by decide +kernel, by decide +kernel, hstatus, hcontext⟩

end Runner

end Stepflow
