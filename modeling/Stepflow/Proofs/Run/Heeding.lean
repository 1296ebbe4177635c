import Stepflow.Proofs.Run.Asking

/-!
# Heeding cancellation

Nothing is begun in a run but right after the answer that nothing is cancelled: no step starts, no step
that a workflow declares is taken, and no fix is run. `HeedsFrom` says so of a script by recursion, with
what was begun before and whether such an answer came just now; giving way and sleeping take the answer
away, but no script does so before it has gone on with a request (`Script.AsksFirst`). Since scripts that
run side by side take turns only where one gives way or sleeps, they heed cancellation as soon as each of
them does, and so does every run (`executeFrom_heeds`).
-/

namespace Stepflow

open Script

variable {κ : Type} {α β γ : Type}

/-- What is in the layer is begun only if nothing is cancelled. -/
def Layer.isGuarded : Layer → Bool
  | .declared _ | .fix _ => true
  | .attempt _ | .option | .member _ | .run | .fallback => false

/-- So is what is at the site. -/
def Site.isGuarded (site : Site) : Bool := site.getLast?.any Layer.isGuarded

theorem Site.isGuarded_cons_cons (l m : Layer) (site : Site) :
    Site.isGuarded (l :: m :: site) = Site.isGuarded (m :: site) := by
  rw [isGuarded, isGuarded, List.getLast?_cons_cons]

/-- The entry is the answer that nothing is cancelled. -/
def Entry.goesAhead : Entry κ → Bool
  | ⟨⟨_, _, .isCancelled⟩, cancelled⟩ => !cancelled
  | _ => false

theorem Entry.goesAhead_into (l : Layer) (e : Entry κ) : (e.into l).goesAhead = e.goesAhead := by
  obtain ⟨⟨site, step, request⟩, answer⟩ := e
  cases request <;> rfl

namespace Inquiry

/-- The request tells that a step starts. -/
def Starts (q : Inquiry κ) : Prop :=
  ∃ workflow step type, q.request = .tell (.stepStarted workflow step type)

/-- **The request begins something**, after what was begun at some sites before: it tells that a step
starts, or is the first one at a guarded site. -/
def Begins (begun : Site → Prop) (q : Inquiry κ) : Prop :=
  q.Starts ∨ ∃ site, Site.isGuarded site ∧ site <+: q.site ∧ ¬ begun site

theorem Begins.anti {begun begun' : Site → Prop} {q : Inquiry κ} (h : q.Begins begun')
    (hle : ∀ site, begun site → begun' site) : q.Begins begun :=
  h.imp_right fun ⟨site, hg, hp, hn⟩ => ⟨site, hg, hp, fun h => hn (hle site h)⟩

/-- The request begins nothing, and does not ask for leave to. -/
structure IsPlain (q : Inquiry κ) : Prop where
  /-- It is made outside all layers. -/
  site : q.site = []
  /-- It does not tell that a step starts. -/
  starts : ¬ q.Starts
  /-- It does not ask whether all is cancelled. -/
  leave : q.request ≠ .isCancelled

theorem IsPlain.not_begins {q : Inquiry κ} (hq : q.IsPlain) (begun : Site → Prop) :
    ¬ q.Begins begun := by
  rintro (hs | ⟨site, hg, hp, -⟩)
  · exact hq.starts hs
  · rw [hq.site, List.prefix_nil] at hp
    subst hp
    contradiction

theorem IsPlain.goesAhead {q : Inquiry κ} (hq : q.IsPlain) (x : q.Answer) :
    Entry.goesAhead ⟨q, x⟩ = false := by
  obtain ⟨site, step, request⟩ := q
  cases request with
  | isCancelled => exact absurd rfl hq.leave
  | _ => rfl

theorem isPlain_tell {e : Event} (he : ¬ e.IsOfStep) : IsPlain ({ request := .tell e } : Inquiry κ) := by
  refine ⟨rfl, ?_, by rintro ⟨⟩⟩
  rintro ⟨workflow, step, type, hr⟩
  injection hr with hr
  subst hr
  exact he (.started workflow step type)

/-- No other request is a notice that a step starts. -/
theorem isPlain_of_silent {request : Request κ} (h : ∀ e, request ≠ .tell e)
    (hleave : request ≠ .isCancelled) : IsPlain ({ request } : Inquiry κ) :=
  ⟨rfl, fun ⟨_, _, _, hr⟩ => h _ hr, hleave⟩

theorem IsCall.isPlain {q : Inquiry κ} (hq : q.IsCall) : q.IsPlain := by
  cases hq <;> exact isPlain_of_silent (fun _ => by rintro ⟨⟩) (by rintro ⟨⟩)

theorem isPlain_now : IsPlain ({ request := .now } : Inquiry κ) :=
  isPlain_of_silent (fun _ => by rintro ⟨⟩) (by rintro ⟨⟩)

theorem isPlain_jitter : IsPlain ({ request := .jitter } : Inquiry κ) :=
  isPlain_of_silent (fun _ => by rintro ⟨⟩) (by rintro ⟨⟩)

end Inquiry

namespace RunScript

/-- **The script heeds cancellation**, where certain sites were begun before, and the answer that nothing
is cancelled came just now or not: what it begins, it begins right after such an answer. And after such
an answer it goes on at once, with a request. -/
def HeedsFrom : RunScript κ α → (begun : Site → Prop) → (free : Bool) → Prop
  | .done _, _, _ => True
  | .ask q next, begun, free => (q.Begins begun → free) ∧
    ∀ x, (Entry.goesAhead ⟨q, x⟩ → (next x).AsksFirst) ∧
      HeedsFrom (next x) (fun site => begun site ∨ site <+: q.site) (Entry.goesAhead ⟨q, x⟩)
  | .poll _ next, begun, _ => ∀ x, HeedsFrom (next x) begun false
  | .pause next, begun, _ => HeedsFrom next begun false
  | .sleep _ next, begun, _ => ∀ x, HeedsFrom (next x) begun false

/-- It heeds cancellation from the beginning, whatever came before. -/
def Heeds (s : RunScript κ α) : Prop := s.HeedsFrom (fun _ => False) false

variable {begun begun' : Site → Prop} {free free' : Bool} {s : RunScript κ α} {t : RunScript κ β}

/-- The more was begun before, and the more freely a script may begin, the sooner it heeds. -/
theorem HeedsFrom.mono (hs : s.HeedsFrom begun free) (hb : ∀ site, begun site → begun' site)
    (hf : free → free') : s.HeedsFrom begun' free' := by
  induction s generalizing begun begun' free free' with
  | done a => trivial
  | ask q next ih =>
    exact ⟨fun h => hf (hs.1 (h.anti hb)), fun x => ⟨(hs.2 x).1,
      ih x (hs.2 x).2 (fun site h => h.imp_left (hb site)) id⟩⟩
  | poll deadline next ih => exact fun x => ih x (hs x) hb id
  | pause next ih => exact ih hs hb id
  | sleep deadline next ih => exact fun x => ih x (hs x) hb id

theorem Heeds.from (hs : s.Heeds) : s.HeedsFrom begun free :=
  HeedsFrom.mono hs (fun _ => False.elim) (fun h => Bool.noConfusion h)

/-- A script that begins nothing heeds cancellation. -/
theorem heeds_of_asksOnly (hs : s.AsksOnly Inquiry.IsPlain) : s.HeedsFrom begun free := by
  induction s generalizing begun free with
  | done a => trivial
  | ask q next ih =>
    refine ⟨fun h => absurd h (hs.1.not_begins _), fun x => ⟨fun h => ?_, ih x (hs.2 x)⟩⟩
    rw [hs.1.goesAhead] at h
    contradiction
  | poll deadline next ih => exact fun x => ih x (hs x)
  | pause next ih => exact ih hs
  | sleep deadline next ih => exact fun x => ih x (hs x)

/-! ## Parts and wholes -/

theorem HeedsFrom.andThen {f : α → RunScript κ β} (hs : s.HeedsFrom begun free)
    (hf : ∀ a, (f a).Heeds) : HeedsFrom (s.andThen f) begun free := by
  induction s generalizing begun free with
  | done a => exact (hf a).from
  | ask q next ih =>
    exact ⟨hs.1, fun x => ⟨fun h => ((hs.2 x).1 h).andThen, ih x (hs.2 x).2⟩⟩
  | poll deadline next ih => exact fun x => ih x (hs x)
  | pause next ih => exact ih hs
  | sleep deadline next ih => exact fun x => ih x (hs x)

/-- **After the question whether all is cancelled**, a script may begin something if nothing is. -/
theorem heedsFrom_isCancelled {f : Bool → RunScript κ α} (hcancelled : (f true).Heeds)
    (hasks : (f false).AsksFirst) (hfree : ∀ begun, (f false).HeedsFrom begun true) :
    HeedsFrom (RunScript.isCancelled.andThen f) begun free := by
  refine ⟨?_, fun x => ?_⟩
  · rintro (⟨workflow, step, type, ⟨⟩⟩ | ⟨site, hg, hp, -⟩)
    obtain rfl := List.prefix_nil.1 hp
    contradiction
  · cases x with
    | true => exact ⟨fun h => Bool.noConfusion h, hcancelled.from⟩
    | false => exact ⟨fun _ => hasks, hfree _⟩

/-- In one layer more everything is as it was, if the layer is begun or needs no beginning. -/
theorem HeedsFrom.under {l : Layer} (hs : s.HeedsFrom begun free)
    (hb : ∀ site, begun site → begun' (l :: site)) (hl : l.isGuarded → begun' [l]) :
    (s.under l).HeedsFrom begun' free := by
  induction s generalizing begun begun' free with
  | done a => trivial
  | ask q next ih =>
    refine ⟨fun h => hs.1 ?_, fun x => ⟨fun h => asksFirst_under ((hs.2 x).1 ?_), ?_⟩⟩
    · obtain h | ⟨site, hg, hp, hn⟩ := h
      · exact .inl h
      · cases site with
        | nil => contradiction
        | cons m site =>
          obtain ⟨rfl, hrest⟩ := List.cons_prefix_cons.1 hp
          cases site with
          | nil => exact absurd (hl hg) hn
          | cons k site =>
            rw [Site.isGuarded_cons_cons] at hg
            exact .inr ⟨k :: site, hg, hrest, fun h => hn (hb _ h)⟩
    · exact Entry.goesAhead_into l ⟨q, x⟩ ▸ h
    · have hnext : HeedsFrom (RunScript.under l (next x)) (fun site => begun' site ∨ site <+: l :: q.site)
          (Entry.goesAhead ⟨q, x⟩) :=
        ih x (hs.2 x).2 (fun site h => h.imp (hb site) fun h => List.cons_prefix_cons.2 ⟨rfl, h⟩)
          fun hg => .inl (hl hg)
      exact Entry.goesAhead_into l ⟨q, x⟩ ▸ hnext
  | poll deadline next ih => exact fun x => ih x (hs x) hb hl
  | pause next ih => exact ih hs hb hl
  | sleep deadline next ih => exact fun x => ih x (hs x) hb hl

/-- In a layer that needs no beginning a script heeds cancellation as it does outside. -/
theorem Heeds.under {l : Layer} (hs : s.Heeds) (hl : l.isGuarded = false) : (s.under l).Heeds :=
  HeedsFrom.under hs (fun _ => False.elim) fun h => absurd h (by simp [hl])

/-- **Right after the answer that nothing is cancelled** a script may begin what is in a layer, if it
asks first. -/
theorem Heeds.begin {l : Layer} (hs : s.Heeds) (ha : s.AsksFirst) :
    (s.under l).HeedsFrom begun true := by
  obtain ⟨q, next, rfl⟩ := ha.eq_ask
  refine ⟨fun _ => rfl, fun x => ⟨fun h => asksFirst_under ((hs.2 x).1 ?_), ?_⟩⟩
  · exact Entry.goesAhead_into l ⟨q, x⟩ ▸ h
  · have hnext : HeedsFrom (RunScript.under l (next x)) (fun site => begun site ∨ site <+: l :: q.site)
        (Entry.goesAhead ⟨q, x⟩) :=
      HeedsFrom.under (hs.2 x).2
        (fun site h => h.elim False.elim fun h => .inr (List.cons_prefix_cons.2 ⟨rfl, h⟩))
        fun _ => .inr (List.cons_prefix_cons.2 ⟨rfl, List.nil_prefix⟩)
    exact Entry.goesAhead_into l ⟨q, x⟩ ▸ hnext

/-! ## Side by side -/

theorem HeedsFrom.mapResult {f : α → β} (hs : s.HeedsFrom begun free) :
    HeedsFrom (s.mapResult f) begun free := hs.andThen fun _ => trivial

theorem HeedsFrom.atTurn {go : RunScript κ β → RunScript κ γ} (ht : t.HeedsFrom begun false)
    (hgo : ∀ t : RunScript κ β, t.HeedsFrom begun false → (go t).HeedsFrom begun false) :
    HeedsFrom (Script.atTurn go t) begun free := by
  have hnow : ∀ u : RunScript κ γ, u.HeedsFrom begun false → u.HeedsFrom begun free := fun u hu =>
    hu.mono (fun _ => id) fun h => Bool.noConfusion h
  cases t with
  | sleep deadline next =>
    rintro (_ | x)
    · exact hgo _ ht
    · exact hgo _ (ht x)
  | done b => exact hnow _ (hgo _ ht)
  | ask q next => exact hnow _ (hgo _ ht)
  | poll deadline next => exact hnow _ (hgo _ ht)
  | pause next => exact hnow _ (hgo _ ht)

theorem HeedsFrom.whilePaused {resume : RunScript κ β → RunScript κ γ} {alone : β → RunScript κ γ}
    (ht : t.HeedsFrom begun free)
    (hresume : ∀ begun' (t : RunScript κ β), (∀ site, begun site → begun' site) →
      t.HeedsFrom begun' false → (resume t).HeedsFrom begun' false)
    (halone : ∀ begun' b, (∀ site, begun site → begun' site) → (alone b).HeedsFrom begun' false) :
    HeedsFrom (Script.whilePaused resume alone t) begun free := by
  induction t generalizing begun free with
  | done b => exact halone begun b fun _ => id
  | ask q next ih =>
    exact ⟨ht.1, fun x => ⟨fun h => ((ht.2 x).1 h).whilePaused, ih x (ht.2 x).2
      (fun begun' t hle => hresume begun' t fun site h => hle site (.inl h))
      fun begun' b hle => halone begun' b fun site h => hle site (.inl h)⟩⟩
  | poll deadline next ih => exact fun x => ih x (ht x) hresume halone
  | pause next _ => exact hresume begun _ (fun _ => id) ht
  | sleep deadline next _ => exact hresume begun _ (fun _ => id) ht

theorem HeedsFrom.whileAsleep {limit : Nat} {wake : Bool → RunScript κ β → RunScript κ γ}
    {alone : β → RunScript κ γ} (ht : t.HeedsFrom begun free)
    (hwake : ∀ begun' x (t : RunScript κ β), (∀ site, begun site → begun' site) →
      t.HeedsFrom begun' false → (wake x t).HeedsFrom begun' false)
    (halone : ∀ begun' free b, (∀ site, begun site → begun' site) →
      (alone b).HeedsFrom begun' free) :
    HeedsFrom (Script.whileAsleep limit wake alone t) begun free := by
  induction t generalizing begun free with
  | done b => exact halone begun free b fun _ => id
  | ask q next ih =>
    exact ⟨ht.1, fun x => ⟨fun h => ((ht.2 x).1 h).whileAsleep, ih x (ht.2 x).2
      (fun begun' y t hle => hwake begun' y t fun site h => hle site (.inl h))
      fun begun' free b hle => halone begun' free b fun site h => hle site (.inl h)⟩⟩
  | poll deadline next ih => exact fun x => ih x (ht x) hwake halone
  | pause next ih =>
    rintro (_ | x)
    · exact ih ht hwake halone
    · exact hwake begun x _ (fun _ => id) ht
  | sleep deadline next ih =>
    intro x
    dsimp only
    split
    · exact hwake begun x _ (fun _ => id) ht
    · exact ih false (ht false) hwake halone

/-- **Side by side** two scripts heed cancellation if each does: what one begins, it begins before the
other has its turn. -/
theorem HeedsFrom.both (hs : s.HeedsFrom begun free) (ht : t.HeedsFrom begun false) :
    HeedsFrom (Script.both s t) begun free := by
  induction s generalizing begun free t with
  | done a =>
    rw [both_done_left]
    exact ht.atTurn fun _ => .mapResult
  | ask q next ih =>
    rw [both_ask_left]
    exact ⟨hs.1, fun x => ⟨fun h => ((hs.2 x).1 h).both,
      ih x (hs.2 x).2 (ht.mono (fun _ => .inl) id)⟩⟩
  | poll deadline next ih =>
    rw [Script.both]
    exact fun x => ih x (hs x) ht
  | pause next ih =>
    rw [Script.both]
    exact ht.atTurn fun _ h => h.whilePaused
      (fun _ _ hle h => ih (HeedsFrom.mono hs hle id) h)
      fun _ _ hle => .mapResult (HeedsFrom.mono hs hle id)
  | sleep deadline next ih =>
    rw [Script.both]
    exact ht.atTurn fun _ h => h.whileAsleep
      (fun _ x _ hle h => ih x (HeedsFrom.mono (hs x) hle id) h)
      fun _ _ _ hle x => .mapResult (HeedsFrom.mono (hs x) hle id)

/-- And so do many. -/
theorem heeds_all {ss : List (RunScript κ α)} (h : ∀ s ∈ ss, s.Heeds) : Heeds (Script.all ss) := by
  induction ss with
  | nil => trivial
  | cons s rest ih =>
    have hrest := ih fun s hs => h s (List.mem_cons_of_mem _ hs)
    exact (HeedsFrom.both (h s List.mem_cons_self) hrest).mapResult

end RunScript

namespace Runner

open RunScript

variable {r : Runner κ} {execute : Execute κ} {c : Context} {scope : Scope} {begun : Site → Prop}
  {free : Bool}

/-! ## Steps -/

theorem branching_heeds {options : List (Expression × Planned κ)}
    (ho : ∀ o ∈ options, o.2.run.Heeds) : (branching c options).Heeds := by
  induction options with
  | nil => trivial
  | cons o rest ih =>
    rw [branching]
    split
    · trivial
    · exact ih fun o ho' => ho o (List.mem_cons_of_mem _ ho')
    · exact ((ho _ List.mem_cons_self).under rfl).andThen fun _ => trivial

theorem recovering_heeds {fallback : Option (Planned κ)} {a : Attempt}
    (hf : ∀ f ∈ fallback, f.run.Heeds) : (recovering fallback a).Heeds := by
  unfold recovering
  split
  · split
    · trivial
    · exact ((hf _ rfl).under rfl).andThen fun _ => trivial
  · trivial

/-- Stages that fail have been called. -/
theorem runStages_asksFirst (r : Runner κ) (stages : List String) :
    (r.runStages stages).run.AsksFirst ∨
      ∃ outcome, (r.runStages stages).run = .done outcome ∧ ∀ failure, outcome ≠ .ok (some failure) := by
  cases stages with
  | nil => exact .inr ⟨_, rfl, by rintro _ ⟨⟩⟩
  | cons stage rest =>
    unfold runStages find
    cases r.registry.resolve .callables stage with
    | found component => exact .inl trivial
    | standIn e => exact .inl trivial
    | missing e => exact .inr ⟨_, rfl, by rintro _ ⟨⟩⟩

theorem validating_asksFirst {stages : StepScript κ (Option StageFailure)} {fix : Option (Planned κ)}
    (ha : stages.run.AsksFirst) {left : Nat} {fixes : Fixes} :
    (validating stages fix left fixes).AsksFirst := by
  cases left <;> rw [validating] <;> exact ha.andThen

/-- A fix is run right after the answer that nothing is cancelled. -/
theorem validating_heeds {stages : StepScript κ (Option StageFailure)} {fix : Option (Planned κ)}
    (hs : stages.run.AsksOnly Inquiry.IsPlain) (ha : stages.run.AsksFirst)
    (hf : ∀ f ∈ fix, f.run.Heeds ∧ f.run.AsksFirst) (left : Nat) (fixes : Fixes) :
    (validating stages fix left fixes).Heeds := by
  induction left generalizing fixes with
  | zero =>
    rw [validating]
    refine HeedsFrom.andThen (heeds_of_asksOnly hs) fun outcome => ?_
    split <;> trivial
  | succ left ih =>
    rw [validating]
    refine HeedsFrom.andThen (heeds_of_asksOnly hs) fun outcome => ?_
    split
    · trivial
    · trivial
    · cases fix with
      | none => exact heedsFrom_isCancelled trivial (validating_asksFirst ha) fun begun => (ih _).from
      | some f =>
        obtain ⟨hrun, hasks⟩ := hf f rfl
        refine heedsFrom_isCancelled trivial (asksFirst_under hasks).andThen fun begun => ?_
        refine (hrun.begin hasks).andThen fun o => ?_
        dsimp only
        split
        · trivial
        · exact ih _

/-- Where no stage is called, none fails and nothing is fixed. -/
theorem validating_heeds_of_done {stages : StepScript κ (Option StageFailure)} {fix : Option (Planned κ)}
    {outcome : Except StepError (Option StageFailure)} (hs : stages.run = .done outcome)
    (hne : ∀ failure, outcome ≠ .ok (some failure)) (left : Nat) (fixes : Fixes) :
    (validating stages fix left fixes).Heeds := by
  cases left <;> rw [validating, hs, andThen] <;> split <;> first
    | trivial
    | exact absurd rfl (hne _)

theorem grouping_heeds {members : List (Planned κ)} (hm : ∀ m ∈ members, m.run.Heeds) :
    (grouping members).Heeds := by
  unfold grouping
  split
  · trivial
  · refine HeedsFrom.andThen (heeds_all fun s hs => ?_) fun _ => trivial
    obtain ⟨m, hmem, rfl⟩ := List.mem_map.1 hs
    exact (hm m.1 (List.fst_mem_of_mem_zipIdx hmem)).under rfl

theorem runNested_heeds {step workflow : String} {inputs : Fields}
    (he : ∀ w inputs scope, (execute w inputs scope).Heeds) :
    (r.runNested execute c scope step workflow inputs).Heeds := by
  have hcalls := RunScript.Works.compositional fun (q : Inquiry κ) (hq : q.IsCall) => hq.isPlain
  refine HeedsFrom.andThen (heeds_of_asksOnly (hcalls.prepare r c scope workflow inputs).asks)
    fun prepared => ?_
  split
  · trivial
  · refine ((he _ _ _).under rfl).andThen fun result => ?_
    split <;> trivial

/-- **A try heeds cancellation** if the steps inside it and the runs of workflows do. -/
theorem kindOf_heeds {name : String} {kind : StepKind Step}
    (hi : ∀ i ∈ kind.inner, (r.step execute c scope i).Heeds)
    (he : ∀ w inputs scope, (execute w inputs scope).Heeds) :
    (r.kindOf execute c scope name kind).Heeds := by
  have hcalls := RunScript.Works.compositional fun (q : Inquiry κ) (hq : q.IsCall) => hq.isPlain
  cases kind with
  | call action args kwargs =>
    rw [kindOf]
    exact heeds_of_asksOnly (attempting_works (hcalls.callAction r c action args kwargs)).asks
  | agent agent inline builder =>
    rw [kindOf]
    exact heeds_of_asksOnly (attempting_works (hcalls.runAgent r c agent inline builder)).asks
  | generate generator inline builder =>
    rw [kindOf]
    exact heeds_of_asksOnly (attempting_works (hcalls.runGenerator r c generator inline builder)).asks
  | validate stages retry fix =>
    rw [kindOf, fallbackOf_eq]
    obtain ha | ⟨outcome, hdone, hne⟩ := runStages_asksFirst r stages
    · refine validating_heeds (hcalls.runStages r stages).asks ha (fun f hf => ?_) _ _
      obtain ⟨i, hi', rfl⟩ := Option.map_eq_some_iff.1 hf
      refine ⟨hi i (Option.mem_toList.2 hi'), ?_⟩
      rw [plan, step_eq]
      trivial
    · exact validating_heeds_of_done hdone hne _ _
  | subworkflow workflow inputs =>
    rw [kindOf]
    exact runNested_heeds he
  | branch options =>
    rw [kindOf, optionsOf_eq]
    refine branching_heeds fun o ho => ?_
    obtain ⟨b, hb, rfl⟩ := List.mem_map.1 ho
    exact hi _ (List.mem_map_of_mem hb)
  | parallel members =>
    rw [kindOf, membersOf_eq]
    refine grouping_heeds fun m hm => ?_
    obtain ⟨i, hi', rfl⟩ := List.mem_map.1 hm
    exact hi i hi'

theorem retried_heeds {policy : Option RetryPolicy} {attempt : RunScript κ Attempt}
    (ha : attempt.Heeds) : (r.retried policy attempt).Heeds := by
  have hretrying : ∀ policy : RetryPolicy, ∀ left tries effects,
      (retrying (r.wait policy) attempt left tries effects).Heeds := by
    intro policy left
    induction left with
    | zero => exact fun tries effects => (ha.under rfl).andThen fun _ => trivial
    | succ left ih =>
      refine fun tries effects => (ha.under rfl).andThen fun a => ?_
      dsimp only
      split
      · refine HeedsFrom.andThen
          (heeds_of_asksOnly (asksOnly_wait Inquiry.isPlain_jitter Inquiry.isPlain_now r policy _))
          fun cancelled => ?_
        split
        · trivial
        · exact ih _ _
      · trivial
  cases policy with
  | none => exact (ha.under rfl).andThen fun _ => trivial
  | some policy => exact hretrying policy _ _ _

theorem finish_heeds {s : Step} {began : Nat} {o : StepOutcome} :
    (finish scope s began o : RunScript κ StepOutcome).Heeds :=
  heeds_of_asksOnly (asksOnly_finish Inquiry.isPlain_now fun _ =>
    ⟨rfl, by rintro ⟨_, _, _, ⟨⟩⟩, by rintro ⟨⟩⟩)

/-- **A step heeds cancellation** if the runs of workflows inside it do: it tells that it starts right
after the answer that nothing is cancelled. -/
theorem step_heeds (he : ∀ w inputs scope, (execute w inputs scope).Heeds) (s : Step) (c : Context)
    (scope : Scope) : (r.step execute c scope s).Heeds := by
  induction s using Step.induction generalizing c scope with
  | h s ih =>
    have hinside : ∀ i ∈ s.nested, (r.step execute c scope i).Heeds := fun i hi => ih i hi c scope
    have htries : (r.retried s.retryPolicy (r.kindOf execute c scope s.name s.kind)).Heeds :=
      retried_heeds (kindOf_heeds (fun i hi => hinside i (List.mem_append_left _ hi)) he)
    rw [step_eq, fallbackOf_eq]
    refine HeedsFrom.andThen (heeds_of_asksOnly (asksOnly_request.2 Inquiry.isPlain_now))
      fun began => ?_
    split
    · exact finish_heeds
    · refine heedsFrom_isCancelled finish_heeds trivial fun begun => ?_
      refine HeedsFrom.andThen (s := RunScript.tellOf s _)
        ⟨fun _ => rfl, fun _ => ⟨fun h => Bool.noConfusion h, trivial⟩⟩ fun _ => ?_
      refine htries.andThen fun x => HeedsFrom.andThen ?_ fun _ => finish_heeds
      refine recovering_heeds fun f hf => ?_
      obtain ⟨i, hi, rfl⟩ := Option.map_eq_some_iff.1 hf
      exact hinside i (List.mem_append_right _ (Option.mem_toList.2 hi))

/-! ## Runs -/

/-- **A run on its way from step to step** takes each step right after the answer that nothing is
cancelled. -/
theorem steps_heeds {ss : List Step} {p : Place} {run : Context → Step → RunScript κ StepOutcome}
    {save : Step → List StepResult → RunScript κ (Except CheckpointError Unit)}
    (hrun : ∀ s ∈ ss, ∀ c, (run c s).Heeds ∧ (run c s).AsksFirst)
    (hsave : ∀ s results, (save s results).AsksOnly Inquiry.IsPlain) : (steps run save ss p).Heeds := by
  induction ss generalizing p with
  | nil => trivial
  | cons s rest ih =>
    have hrest : ∀ p, (steps run save rest p).Heeds := fun p =>
      ih fun s hs => hrun s (List.mem_cons_of_mem _ hs)
    obtain ⟨hheeds, hasks⟩ := hrun s List.mem_cons_self p.context
    refine heedsFrom_isCancelled trivial (asksFirst_under hasks).andThen fun begun => ?_
    refine (hheeds.begin hasks).andThen fun o => ?_
    dsimp only
    split
    · trivial
    · trivial
    · exact hrest _
    all_goals
      refine HeedsFrom.andThen (heeds_of_asksOnly (hsave s _)) fun saved => ?_
      split
      · exact hrest _
      · trivial

theorem saving_isPlain {w : Workflow} {given : Fields} {s : Step} {results : List StepResult} :
    (saving w scope given s results : RunScript κ _).AsksOnly Inquiry.IsPlain :=
  asksOnly_saving_of (Inquiry.isPlain_of_silent (fun _ => by rintro ⟨⟩) (by rintro ⟨⟩))
    (Inquiry.isPlain_of_silent (fun _ => by rintro ⟨⟩) (by rintro ⟨⟩))
    (fun _ _ => Inquiry.isPlain_of_silent (fun _ => by rintro ⟨⟩) (by rintro ⟨⟩))
    fun _ => Inquiry.isPlain_tell (by rintro ⟨⟩)

/-- **A run heeds cancellation** if the runs of workflows inside its steps do. -/
theorem executeFrom_heeds {w : Workflow} {given : Fields} {recorded : List StepResult}
    (he : ∀ w inputs scope, (execute w inputs scope).Heeds) :
    (r.executeFrom execute recorded w given scope).Heeds := by
  rw [executeFrom_eq]
  split
  · trivial
  · split
    · trivial
    · refine HeedsFrom.andThen (heeds_of_asksOnly (asksOnly_request.2 Inquiry.isPlain_now))
        fun began => HeedsFrom.andThen (heeds_of_asksOnly
          (asksOnly_request.2 (Inquiry.isPlain_tell (by rintro ⟨⟩)))) fun _ => ?_
      refine HeedsFrom.andThen (steps_heeds (fun s _ c => ⟨step_heeds he s c scope, ?_⟩)
        fun _ _ => saving_isPlain) fun p => HeedsFrom.andThen (heeds_of_asksOnly ?_) fun _ => trivial
      · rw [step_eq]
        trivial
      · exact asksOnly_conclude (fun _ hq => hq.isPlain) (fun _ => Inquiry.isPlain_tell)
          (fun _ _ => Inquiry.isPlain_of_silent (fun _ => by rintro ⟨⟩) (by rintro ⟨⟩)) Inquiry.isPlain_now

/-- **Every run inside a step heeds cancellation**, by induction on the levels of nesting. -/
theorem execute_heeds (levels : Nat) (w : Workflow) (inputs : Fields) (scope : Scope) :
    (r.execute levels w inputs scope).Heeds := by
  induction levels generalizing w inputs scope with
  | zero => trivial
  | succ levels ih => exact executeFrom_heeds ih

/-- **And so does every run.** -/
theorem run_heeds (w : Workflow) (id : String) (inputs : Fields) : (r.run w id inputs).Heeds := by
  unfold Runner.run
  split
  · trivial
  · exact executeFrom_heeds (execute_heeds _)

theorem runFresh_heeds (w : Workflow) (inputs : Fields) : (r.runFresh w inputs).Heeds :=
  HeedsFrom.andThen (heeds_of_asksOnly
    (asksOnly_request.2 (Inquiry.isPlain_of_silent (fun _ => by rintro ⟨⟩) (by rintro ⟨⟩)))) fun id =>
    run_heeds w id inputs

theorem resume_heeds (w : Workflow) (id : String) (inputs : Fields) :
    (r.resume w id inputs).Heeds := by
  unfold Runner.resume
  split
  · trivial
  · split
    · trivial
    · refine HeedsFrom.andThen (heeds_of_asksOnly
        (asksOnly_request.2 (Inquiry.isPlain_of_silent (fun _ => by rintro ⟨⟩) (by rintro ⟨⟩)))) fun newest => ?_
      split
      · trivial
      · exact executeFrom_heeds (execute_heeds _)

end Runner

end Stepflow
