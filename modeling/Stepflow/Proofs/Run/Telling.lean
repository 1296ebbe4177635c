import Mathlib.Data.List.Induction
import Stepflow.Proofs.Run.Step

/-!
# What steps tell is what they leave

A step that is done tells its output, and leaves it for the steps after it; a trace lists what is told
in the order of time, while what a step leaves is put together from the steps inside it. The two lists
need not be the same, since members of a group complete in any order. But they have the same last entry
of every name, if the steps have different names: `RunScript.Tells` says so of a script, and holds of
scripts one after the other as soon as it holds of each (`Tells.andThen`); only for members side by side
are the names needed (`Trace.Tells.join`).
-/

namespace Stepflow

open Script

variable {κ : Type} {α β : Type}

/-! ## The last entry of a name -/

/-- The value of the last entry of a name. -/
def latest (entries : List (String × Value)) (name : String) : Option Value :=
  (entries.reverse.find? fun e => e.1 = name).map Prod.snd

theorem latest_append (as bs : List (String × Value)) (name : String) :
    latest (as ++ bs) name = (latest bs name).or (latest as name) := by
  rw [latest, List.reverse_append, List.find?_append, latest, latest]
  cases List.find? (fun e => decide (e.1 = name)) bs.reverse <;> rfl

theorem latest_eq_none {entries : List (String × Value)} {name : String}
    (h : ∀ e ∈ entries, e.1 ≠ name) : latest entries name = none := by
  rw [latest, Option.map_eq_none_iff, List.find?_eq_none]
  intro e he
  simpa using h e (List.mem_reverse.1 he)

/-- Only the entries of the name matter. -/
theorem latest_filter (entries : List (String × Value)) (name : String) :
    latest (entries.filter fun e => e.1 = name) name = latest entries name := by
  rw [latest, ← List.filter_reverse, List.find?_filter, latest]
  simp

/-- **A context** has the last entry of each name that it is given. -/
theorem Context.get?_setOutputs_latest (c : Context) (entries : List (String × Value)) (name : String) :
    (c.setOutputs entries).outputs.get? name = (latest entries name).or (c.outputs.get? name) := by
  induction entries using List.reverseRecOn with
  | nil => rfl
  | append_singleton entries e ih =>
    have hset : (c.setOutputs (entries ++ [e])).outputs =
        (c.setOutputs entries).outputs.insert e.1 e.2 := by
      rw [setOutputs, List.foldl_append]
      rfl
    rw [hset, latest_append]
    -- the last entry hides those of the same name before it
    by_cases hname : e.1 = name
    · rw [hname, Table.get?_insert_self, latest, List.reverse_singleton, List.find?_cons,
        decide_eq_true hname]
      rfl
    · rw [Table.get?_insert_of_ne _ _ hname, ih, latest_eq_none (List.forall_mem_singleton.2 hname)]
      rfl

/-! ## What a trace tells -/

/-- The name and the output of the step that an entry tells to be done, unless it is one of a run inside
a step. -/
def Entry.told? (e : Entry κ) : Option (String × Value) :=
  match e.request with
  | ⟨site, _, .tell (.stepCompleted _ result)⟩ =>
    if site.isOwn && result.status.isDone then some (result.name, result.output) else none
  | _ => none

namespace Entry

theorem told?_into {l : Layer} (hl : l ≠ .run) (e : Entry κ) : (e.into l).told? = e.told? := by
  obtain ⟨⟨site, step, request⟩, answer⟩ := e
  cases request with
  | tell event =>
    cases event with
    | stepCompleted workflow result =>
      simp only [told?, into, Inquiry.into, Site.isOwn_cons hl]
    | _ => rfl
  | _ => rfl

theorem told?_into_run (e : Entry κ) : (e.into .run).told? = none := by
  obtain ⟨⟨site, step, request⟩, answer⟩ := e
  cases request with
  | tell event =>
    cases event with
    | stepCompleted workflow result =>
      simp only [told?, into, Inquiry.into, Site.isOwn_run, Bool.false_and]
      rfl
    | _ => rfl
  | _ => rfl

theorem told?_of_calm {e : Entry κ} (h : e.request.Calm) : e.told? = none := by
  obtain ⟨⟨site, step, request⟩, answer⟩ := e
  unfold told?
  split
  · rename_i heq
    injection heq with _ _ hr
    simp [Inquiry.Calm, hr, Event.counts] at h
  · rfl

end Entry

namespace Trace

variable {t u v : Trace κ} {names names' : List String} {outputs outputs' : List (String × Value)}

/-- **What the steps of a run tell**: the names and outputs of those that are done, runs inside steps
left out, in the order of time. -/
def told (t : Trace κ) : List (String × Value) := t.filterMap Entry.told?

@[simp] theorem told_append (t u : Trace κ) : told (t ++ u) = told t ++ told u :=
  List.filterMap_append

theorem told_into {l : Layer} (hl : l ≠ .run) (t : Trace κ) : (t.into l).told = t.told := by
  rw [told, into, List.filterMap_map]
  exact congrArg (List.filterMap · t) (funext (Entry.told?_into hl))

/-- Runs inside steps are left out. -/
theorem told_into_run (t : Trace κ) : (t.into .run).told = [] := by
  rw [told, into, List.filterMap_map, List.filterMap_eq_nil_iff]
  exact fun e _ => e.told?_into_run

theorem Quiet.told (h : t.Quiet) : t.told = [] :=
  List.filterMap_eq_nil_iff.2 fun e he =>
    Entry.told?_of_calm (h.calm e (by rw [own_eq_self h.layers]; exact he))

theorem told_completing (t : Trace κ) (workflow : String) (s : Step) (result : StepResult) :
    (t.completing workflow s result).told =
      t.told ++ if result.status.isDone then [(result.name, result.output)] else [] := by
  rw [completing, told_append]
  refine congrArg (t.told ++ ·) ?_
  rw [told, List.filterMap_cons, List.filterMap_nil]
  simp only [Entry.told?, Entry.ofCompleted, Site.isOwn_nil, Bool.true_and]
  cases result.status.isDone <;> rfl

/-- **A trace tells these outputs**: of every name the last, and of no name but the given ones. -/
structure Tells (names : List String) (outputs : List (String × Value)) (t : Trace κ) : Prop where
  /-- The last of each name. -/
  latest : ∀ name, latest t.told name = latest outputs name
  /-- Only these names. -/
  names : ∀ e ∈ t.told, e.1 ∈ names

namespace Tells

theorem of_told (h : t.told = []) : t.Tells names [] := ⟨fun _ => by rw [h], by rw [h]; nofun⟩

theorem mono (h : t.Tells names outputs) (hn : names ⊆ names') : t.Tells names' outputs :=
  ⟨h.latest, fun e he => hn (h.names e he)⟩

theorem append (ht : t.Tells names outputs) (hu : u.Tells names outputs') :
    (t ++ u).Tells names (outputs ++ outputs') where
  latest name := by rw [told_append, latest_append, latest_append, ht.latest, hu.latest]
  names e he := by
    rw [told_append, List.mem_append] at he
    exact he.elim (ht.names e) (hu.names e)

theorem into (h : t.Tells names outputs) {l : Layer} (hl : l ≠ .run) : (t.into l).Tells names outputs := by
  refine ⟨fun name => ?_, ?_⟩
  · rw [told_into hl]
    exact h.latest name
  · rw [told_into hl]
    exact h.names

/-- Other names have no entry. -/
theorem latest_eq_none (h : t.Tells names outputs) {name : String} (hn : name ∉ names) :
    Stepflow.latest t.told name = none :=
  Stepflow.latest_eq_none fun e he heq => hn (heq ▸ h.names e he)

/-- And the outputs have no others. -/
theorem mem_names (h : t.Tells names outputs) {e : String × Value} (he : e ∈ outputs) : e.1 ∈ names := by
  by_contra hn
  have hnone := (h.latest e.1).symm.trans (h.latest_eq_none hn)
  rw [Stepflow.latest, Option.map_eq_none_iff, List.find?_eq_none] at hnone
  simpa using hnone e (List.mem_reverse.2 he)

/-- **Side by side**, what has different names does not interfere. -/
theorem join (ht : t.Tells names outputs) (hu : u.Tells names' outputs') (h : Interleaving t u v)
    (hd : names.Disjoint names') : v.Tells (names ++ names') (outputs ++ outputs') := by
  have htold : Interleaving t.told u.told v.told := h.filterMap Entry.told?
  -- what has no entry of a name does not matter for the last one
  have hnone : ∀ {t : Trace κ} {names : List String} {outputs : List (String × Value)} {name : String},
      t.Tells names outputs → name ∉ names → (t.told.filter fun e => e.1 = name) = [] :=
    fun ht hn => List.filter_eq_nil_iff.2 fun e he h => by
      rw [decide_eq_true_iff] at h
      exact hn (h ▸ ht.names e he)
  refine ⟨fun name => ?_, fun e he => ?_⟩
  · have hfilter := htold.filter fun e => e.1 = name
    rw [latest_append, ← ht.latest, ← hu.latest, ← latest_filter v.told, ← latest_filter t.told,
      ← latest_filter u.told]
    by_cases hn : name ∈ names
    · rw [hnone hu (hd hn)] at hfilter ⊢
      rw [hfilter.eq_of_nil_right]
      rfl
    · rw [hnone ht hn] at hfilter ⊢
      rw [hfilter.eq_of_nil_left]
      exact Option.or_none.symm
  · exact List.mem_append.2 ((htold.mem_iff.1 he).imp (ht.names e) (hu.names e))

end Tells

end Trace

/-! ## What a script tells -/

/-- **A script tells what it adds** to the outputs `before`. -/
def RunScript.Tells (names : List String) (before : List (String × Value)) (s : RunScript κ α)
    (after : α → List (String × Value)) : Prop :=
  ∀ (t : Trace κ) a, s.Traces t a → ∃ new, after a = before ++ new ∧ t.Tells names new

namespace RunScript.Tells

variable {names names' : List String} {before : List (String × Value)}
  {after : α → List (String × Value)} {s : RunScript κ α}

theorem done {a : α} (h : after a = before) : Tells names before (.done a : RunScript κ α) after := by
  intro t b ht
  obtain ⟨rfl, rfl⟩ := traces_done.1 ht
  exact ⟨[], by rw [h, List.append_nil], .of_told rfl⟩

/-- What asks quietly tells nothing. -/
theorem quiet (h : s.AsksOnly Inquiry.IsQuiet) : Tells names before s fun _ => before := fun _ _ ht =>
  ⟨[], (List.append_nil _).symm, .of_told (Trace.Quiet.of_asksOnly h ht).told⟩

theorem mono (h : s.Tells names before after) (hn : names ⊆ names') : s.Tells names' before after := by
  intro t a ht
  obtain ⟨new, hnew, htells⟩ := h t a ht
  exact ⟨new, hnew, htells.mono hn⟩

/-- **One after the other**, scripts tell what both add. -/
theorem andThen {f : α → RunScript κ β} {last : β → List (String × Value)}
    (hs : s.Tells names before after) (hf : ∀ a, (f a).Tells names (after a) last) :
    RunScript.Tells names before (s.andThen f) last := by
  intro t b ht
  obtain ⟨t₁, t₂, a, h₁, h₂, rfl⟩ := traces_andThen.1 ht
  obtain ⟨new, hnew, htells⟩ := hs t₁ a h₁
  obtain ⟨new', hnew', htells'⟩ := hf a t₂ b h₂
  exact ⟨new ++ new', by rw [hnew', hnew, List.append_assoc], htells.append htells'⟩

theorem under {l : Layer} (hl : l ≠ .run) (h : s.Tells names before after) :
    (s.under l).Tells names before after := by
  intro t a ht
  obtain ⟨u, hu, rfl⟩ := RunScript.traces_under.1 ht
  obtain ⟨new, hnew, htells⟩ := h u a hu
  exact ⟨new, hnew, htells.into hl⟩

/-- What a script adds to nothing it adds to anything. -/
theorem frame (h : s.Tells names [] after) (before : List (String × Value)) :
    s.Tells names before fun a => before ++ after a := by
  intro t a ht
  obtain ⟨new, hnew, htells⟩ := h t a ht
  exact ⟨new, congrArg (before ++ ·) hnew, htells⟩

end RunScript.Tells

/-- The step tells what it leaves. -/
abbrev Planned.Tells (names : List String) (f : Planned κ) : Prop :=
  f.run.Tells names [] fun o => o.effects.outputs

/-- A step run in a layer adds what it leaves. -/
theorem Planned.Tells.runAs {names : List String} {f : Planned κ} (h : f.Tells names) {l : Layer}
    (hl : l ≠ .run) (before : Effects) :
    (f.runAs l).Tells names before.outputs fun o => (before ++ o.effects).outputs :=
  (RunScript.Tells.under hl h).frame before.outputs

/-- The try tells what it leaves. -/
abbrev RunScript.TellsEffects (names : List String) (before : Effects) (x : RunScript κ Attempt) : Prop :=
  x.Tells names before.outputs fun a => a.effects.outputs

namespace Runner

variable {r : Runner κ} {s : Step} {c : Context} {scope : Scope} {names : List String}

/-! ## What is inside a step -/

theorem attempting_tells {x : StepScript κ Value} (hx : x.Works Inquiry.IsQuiet) :
    (attempting x).TellsEffects names .empty :=
  RunScript.Tells.andThen (.quiet hx.asks) fun _ => .done rfl

theorem branching_tells {options : List (Expression × Planned κ)}
    (ho : ∀ o ∈ options, o.2.Tells names) : (branching c options).TellsEffects names .empty := by
  have hl : Layer.option ≠ .run := nofun
  induction options with
  | nil => exact .done rfl
  | cons o rest ih =>
    rw [branching]
    split
    · exact .done rfl
    · exact ih fun o ho' => ho o (List.mem_cons_of_mem _ ho')
    · exact RunScript.Tells.andThen ((ho _ List.mem_cons_self).runAs hl .empty) fun _ => .done rfl

theorem recovering_tells {fallback : Option (Planned κ)} (hf : ∀ f ∈ fallback, f.Tells names)
    (a : Attempt) : (recovering fallback a).TellsEffects names a.effects := by
  unfold recovering
  split
  · split
    · exact .done rfl
    · exact RunScript.Tells.andThen ((hf _ rfl).runAs (l := .fallback) nofun a.effects) fun _ => .done rfl
  · exact .done rfl

theorem retrying_tells {wait : Nat → RunScript κ Bool} {attempt : RunScript κ Attempt}
    (hw : ∀ n, (wait n).AsksOnly Inquiry.IsQuiet) (ha : attempt.TellsEffects names .empty)
    (left tries : Nat) (effects : Effects) :
    (retrying wait attempt left tries effects).Tells names effects.outputs
      fun x => x.1.effects.outputs := by
  have htry : ∀ (tries : Nat) (effects : Effects), (attempt.under (.attempt tries)).Tells names
      effects.outputs fun a => (effects ++ a.effects).outputs := fun tries effects =>
    (RunScript.Tells.under (l := .attempt tries) nofun ha).frame effects.outputs
  induction left generalizing tries effects with
  | zero => exact (htry tries effects).andThen fun a => .done rfl
  | succ left ih =>
    refine (htry tries effects).andThen fun a => ?_
    dsimp only
    split
    · refine RunScript.Tells.andThen (.quiet (hw _)) fun cancelled => ?_
      split
      · exact .done rfl
      · exact ih _ (effects ++ a.effects)
    · exact .done rfl

theorem retried_tells {policy : Option RetryPolicy} {attempt : RunScript κ Attempt}
    (ha : attempt.TellsEffects names .empty) :
    (r.retried policy attempt).Tells names [] fun x => x.1.effects.outputs := by
  cases policy with
  | none => exact RunScript.Tells.andThen (.under nofun ha) fun _ => .done rfl
  | some p =>
    exact retrying_tells (asksOnly_wait Inquiry.IsWork.jitter.isQuiet Inquiry.IsWork.now.isQuiet r p)
      ha _ _ .empty

theorem validating_tells {stages : StepScript κ (Option StageFailure)} {fix : Option (Planned κ)}
    (hs : stages.Works Inquiry.IsQuiet) (hf : ∀ f ∈ fix, f.Tells names) (left : Nat) (fixes : Fixes) :
    (validating stages fix left fixes).TellsEffects names fixes.effects := by
  have hl : ∀ n, Layer.fix n ≠ .run := fun _ => nofun
  induction left generalizing fixes with
  | zero =>
    rw [validating]
    refine RunScript.Tells.andThen (.quiet hs.asks) fun outcome => ?_
    split <;> exact .done rfl
  | succ left ih =>
    rw [validating]
    refine RunScript.Tells.andThen (.quiet hs.asks) fun outcome => ?_
    split
    · exact .done rfl
    · exact .done rfl
    · refine RunScript.Tells.andThen
        (.quiet (RunScript.Works.isCancelled fun _ => Inquiry.IsWork.isQuiet).asks) fun cancelled => ?_
      split
      · exact .done rfl
      · cases fix with
        | none => exact ih fixes.afterNothing
        | some f =>
          refine RunScript.Tells.andThen ((hf f rfl).runAs (hl _) fixes.effects) fun o => ?_
          dsimp only
          split
          · exact .done rfl
          · exact ih (fixes.after o)

/-- **Members of a group** tell what they leave, if no two of them hold steps of one name. -/
theorem members_tell {members : List (Planned κ)}
    (hm : ∀ m ∈ members, m.Tells (Workflow.namesIn [m.step]))
    (hn : (Workflow.namesIn (members.map Planned.step)).Nodup) {index : Nat} {t : Trace κ}
    {os : List StepOutcome}
    (h : TracesAll ((members.zipIdx index).map fun m => m.1.runAs (.member m.2)) t os) :
    t.Tells (Workflow.namesIn (members.map Planned.step))
      (Effects.concat (os.map StepOutcome.effects)).outputs := by
  induction members generalizing index t os with
  | nil =>
    cases h
    exact .of_told rfl
  | cons m rest ih =>
    rw [List.zipIdx_cons, List.map_cons] at h
    obtain _ | ⟨hv, hw, i⟩ := h
    have hnames : Workflow.namesIn ((m :: rest).map Planned.step) =
        Workflow.namesIn [m.step] ++ Workflow.namesIn (rest.map Planned.step) :=
      Workflow.namesIn_append [m.step] _
    rw [hnames, List.nodup_append] at hn
    obtain ⟨_, rfl, htells⟩ := (hm m List.mem_cons_self).runAs (l := .member _) nofun .empty _ _ hv
    have hrest := ih (fun m hm' => hm m (List.mem_cons_of_mem _ hm')) hn.2.1 hw
    rw [hnames]
    exact htells.join hrest i fun n hn₁ hn₂ => hn.2.2 n hn₁ n hn₂ rfl

theorem grouping_tells {members : List (Planned κ)}
    (hm : ∀ m ∈ members, m.Tells (Workflow.namesIn [m.step]))
    (hn : (Workflow.namesIn (members.map Planned.step)).Nodup) :
    (grouping members).TellsEffects (Workflow.namesIn (members.map Planned.step)) .empty := by
  unfold grouping
  split
  · exact .done rfl
  · have hall : RunScript.Tells (Workflow.namesIn (members.map Planned.step)) []
        (Script.all (members.zipIdx.map fun m => m.1.runAs (.member m.2)))
        fun os => (Effects.concat (os.map StepOutcome.effects)).outputs :=
      fun t os h => ⟨_, rfl, members_tell hm hn (TracesAll.of_all h)⟩
    exact hall.andThen fun _ => .done rfl

/-- **A run inside a step** tells nothing, and leaves no outputs. -/
theorem runNested_tells {execute : Execute κ} {step workflow : String} {inputs : Fields} :
    (r.runNested execute c scope step workflow inputs).TellsEffects names .empty := by
  have hprepare := ((RunScript.Works.compositional fun _ hq => hq.isWork.isQuiet).prepare r c scope
    workflow inputs).asks
  refine RunScript.Tells.andThen (.quiet hprepare) fun prepared => ?_
  split
  · exact .done rfl
  · have hinside : ∀ {α : Type} (x : RunScript κ α),
        (x.under .run).Tells names [] fun _ => [] := fun x t a h => by
      obtain ⟨u, -, rfl⟩ := RunScript.traces_under.1 h
      exact ⟨[], rfl, .of_told (Trace.told_into_run u)⟩
    refine (hinside _).andThen fun result => ?_
    split <;> exact .done rfl

/-! ## Steps -/

/-- **The end of a step** tells its output if it is done, and that is what it leaves besides. -/
theorem finish_tells {began : Nat} {o : StepOutcome} {before : List (String × Value)}
    (hs : s.name ∈ names) (hname : o.result.name = s.name) (ho : o.effects.outputs =
      before ++ if o.result.status.isDone then [(s.name, o.result.output)] else []) :
    (finish scope s began o : RunScript κ StepOutcome).Tells names before
      fun o => o.effects.outputs := by
  intro t o' h
  obtain ⟨q, d, hq, rfl, rfl⟩ := finish_traces h
  have htold : (q.completing scope.workflow s { o.result with durationMs := d }).told =
      if o.result.status.isDone then [(s.name, o.result.output)] else [] := by
    rw [Trace.told_completing, hq.told, ← hname]
    rfl
  refine ⟨_, ho, fun name => by rw [htold], fun e he => ?_⟩
  rw [htold] at he
  split at he
  · rw [List.mem_singleton.1 he]
    exact hs
  · contradiction

theorem conclude_name (a : Attempt) (tries : Nat) : (s.conclude a tries).result.name = s.name := by
  unfold Step.conclude
  cases a.outcome with
  | ok output => rfl
  | error e =>
    dsimp only
    split <;> rfl

theorem conclude_outputs (a : Attempt) (tries : Nat) : (s.conclude a tries).effects.outputs =
    a.effects.outputs ++ if (s.conclude a tries).result.status.isDone then
      [(s.name, (s.conclude a tries).result.output)] else [] := by
  unfold Step.conclude
  cases a.outcome with
  | ok output =>
    dsimp only
    split <;> rfl
  | error e =>
    dsimp only
    split
    · exact (List.append_nil _).symm
    · dsimp only
      split <;> exact (List.append_nil _).symm

theorem decorated_tells {attempt : RunScript κ Attempt} {fallback : Option (Planned κ)}
    (hs : s.name ∈ names) (ha : attempt.TellsEffects names .empty)
    (hf : ∀ f ∈ fallback, f.Tells names) :
    Planned.Tells names ⟨s, r.decorated c scope s attempt fallback⟩ := by
  have hquiet : ∀ {α : Type} {x : RunScript κ α}, x.AsksOnly Inquiry.IsQuiet →
      x.Tells names [] fun _ => [] := .quiet
  refine RunScript.Tells.andThen
    (hquiet (asksOnly_request.2 (Inquiry.IsWork.now).isQuiet)) fun began => ?_
  split
  · exact finish_tells hs rfl rfl
  · refine RunScript.Tells.andThen
      (hquiet (asksOnly_request.2 (Inquiry.IsWork.isCancelled).isQuiet)) fun cancelled => ?_
    split
    · exact finish_tells hs rfl rfl
    · refine RunScript.Tells.andThen
        (hquiet (asksOnly_request.2 ⟨rfl, by rintro _ ⟨⟩; rfl⟩)) fun _ => ?_
      refine (retried_tells ha).andThen fun x => ?_
      refine RunScript.Tells.andThen (recovering_tells hf x.1) fun a => ?_
      exact finish_tells hs (conclude_name a x.2) (conclude_outputs a x.2)

variable {execute : Execute κ}

/-- **What a kind of step does** tells what it leaves. -/
theorem kindOf_tells {name : String} {kind : StepKind Step}
    (hi : ∀ i ∈ kind.inner, (r.plan execute c scope i).Tells (Workflow.namesIn [i]))
    (hn : (Workflow.namesIn kind.inner).Nodup) :
    (r.kindOf execute c scope name kind).TellsEffects (Workflow.namesIn kind.inner) .empty := by
  have hcalls := RunScript.Works.compositional fun (q : Inquiry κ) (hq : q.IsCall) => hq.isWork.isQuiet
  have hinner : ∀ i ∈ kind.inner,
      (r.plan execute c scope i).Tells (Workflow.namesIn kind.inner) := fun i hm =>
    (hi i hm).mono (Workflow.namesIn_sublist (List.singleton_sublist.2 hm)).subset
  cases kind with
  | call action args kwargs =>
    rw [kindOf]
    exact attempting_tells (hcalls.callAction r c action args kwargs)
  | agent agent inline builder =>
    rw [kindOf]
    exact attempting_tells (hcalls.runAgent r c agent inline builder)
  | generate generator inline builder =>
    rw [kindOf]
    exact attempting_tells (hcalls.runGenerator r c generator inline builder)
  | validate stages retry fix =>
    rw [kindOf, fallbackOf_eq]
    refine validating_tells (hcalls.runStages r stages) (fun f hf => ?_) retry {}
    obtain ⟨i, hm, rfl⟩ := Option.map_eq_some_iff.1 hf
    exact hinner i (Option.mem_toList.2 hm)
  | subworkflow workflow inputs =>
    rw [kindOf]
    exact runNested_tells
  | branch options =>
    rw [kindOf, optionsOf_eq]
    refine branching_tells fun o ho => ?_
    obtain ⟨b, hb, rfl⟩ := List.mem_map.1 ho
    exact hinner _ (List.mem_map_of_mem hb)
  | parallel members =>
    have hsteps : (members.map (r.plan execute c scope)).map Planned.step = members := by
      rw [List.map_map]
      exact List.map_id members
    rw [kindOf, membersOf_eq]
    have hmembers : ∀ m ∈ members.map (r.plan execute c scope),
        m.Tells (Workflow.namesIn [m.step]) := fun m hm => by
      obtain ⟨i, hi', rfl⟩ := List.mem_map.1 hm
      exact hi i hi'
    have htells := grouping_tells hmembers (by rw [hsteps]; exact hn)
    rw [hsteps] at htells
    exact htells

/-- **Every step tells what it leaves**, if the steps in it have different names. -/
theorem step_tells (s : Step) (hn : (Workflow.namesIn [s]).Nodup) (c : Context) (scope : Scope) :
    (r.plan execute c scope s).Tells (Workflow.namesIn [s]) := by
  induction s using Step.induction with
  | h s ih =>
    rw [Workflow.namesIn_singleton] at hn ⊢
    have hnested := (List.nodup_cons.1 hn).2
    have hi : ∀ i ∈ s.nested, (r.plan execute c scope i).Tells (Workflow.namesIn [i]) := fun i hi =>
      ih i hi (hnested.sublist (Workflow.namesIn_sublist (List.singleton_sublist.2 hi)))
    have hinner : s.kind.inner.Sublist s.nested := List.sublist_append_left _ _
    have hkind : (r.kindOf execute c scope s.name s.kind).TellsEffects
        (Workflow.namesIn s.kind.inner) .empty := kindOf_tells (fun i hm => hi i (hinner.subset hm))
      (hnested.sublist (Workflow.namesIn_sublist hinner))
    rw [plan, step_eq, fallbackOf_eq]
    refine decorated_tells List.mem_cons_self (hkind.mono fun n hm => ?_) fun f hf => ?_
    · exact List.mem_cons_of_mem _ ((Workflow.namesIn_sublist hinner).subset hm)
    · obtain ⟨i, hm, rfl⟩ := Option.map_eq_some_iff.1 hf
      have hm : i ∈ s.nested := List.mem_append_right _ (Option.mem_toList.2 hm)
      refine (hi i hm).mono fun n hn => List.mem_cons_of_mem _ ?_
      exact (Workflow.namesIn_sublist (List.singleton_sublist.2 hm)).subset hn

end Runner

end Stepflow
