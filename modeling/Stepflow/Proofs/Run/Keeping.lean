import Stepflow.Proofs.Run.Components
import Stepflow.Proofs.Run.Memory
import Stepflow.Proofs.Step.Nesting
import Stepflow.Run.Step
import Stepflow.Run.Workflow

/-!
# What steps keep

`Kept` says of a trace that both what is owed after it and what is remembered of it are as they should
be. `Step.Keeps` says so of all traces of the script of a step, and `Step.Adds` of what happened inside
a step so far: its tries, fixes, options, members and fallback, whose results are the children of its
result. The laws here are about `Adds`: quiet exchanges add nothing, a step run in a layer adds its
result and its effects, and what two parts add is added by both together.
-/

namespace Stepflow

open Script

variable {κ : Type} {r : Runner κ} {known : Prop} {t u v : Trace κ} {cs ds : List Completion}
  {live live' memo memo' : Effects}

namespace Effects

@[simp] theorem append_empty (e : Effects) : e ++ .empty = e := by
  show append e empty = e
  simp [append, empty]

@[simp] theorem empty_append (e : Effects) : .empty ++ e = e := rfl

theorem append_assoc (a b c : Effects) : a ++ b ++ c = a ++ (b ++ c) := by
  show append (append a b) c = append a (append b c)
  simp [append]

@[simp] theorem concat_nil : concat [] = .empty := rfl

@[simp] theorem concat_cons (e : Effects) (es : List Effects) : concat (e :: es) = e ++ concat es := rfl

theorem concat_append (as bs : List Effects) : concat (as ++ bs) = concat as ++ concat bs := by
  induction as with
  | nil => rfl
  | cons a as ih => rw [List.cons_append, concat_cons, concat_cons, ih, append_assoc]

end Effects

/-- **What a trace leaves**: what is owed and remembered after it. -/
structure Kept (r : Runner κ) (known : Prop) (t : Trace κ) (cs : List Completion)
    (live memo : Effects) : Prop where
  /-- The compensations owed. -/
  ledger : Ledger r t cs live.compensations
  /-- The outputs, and what the results record. -/
  memory : Memory known t cs live.outputs memo

namespace Kept

theorem mono {known' : Prop} (h : Kept r known t cs live memo) (hk : known' → known) :
    Kept r known' t cs live memo := ⟨h.ledger, h.memory.mono hk⟩

/-- The record may be told otherwise. -/
theorem congr (h : Kept r known t cs live memo) (ho : memo.outputs = memo'.outputs)
    (hc : known → memo.compensations = memo'.compensations) :
    Kept r known t cs live memo' :=
  ⟨h.ledger, h.memory.outputs_eq, ho ▸ h.memory.recorded_outputs,
    fun k => hc k ▸ h.memory.recorded_compensations k⟩

theorem join (ht : Kept r known t cs live memo) (hu : Kept r known u ds live' memo')
    (h : t.Joins u v) (hs : (∀ k, .attempt k ∉ t.layers) ∨ ∀ k, .attempt k ∉ u.layers) :
    Kept r known v (cs ++ ds) (live ++ live') (memo ++ memo') :=
  ⟨ht.ledger.join hu.ledger h, ht.memory.join hu.memory h ht.ledger.lists hu.ledger.lists hs⟩

theorem replace (ht : Kept r known t cs live memo) (hu : Kept r known u ds live' memo')
    (h : t.Joins u v) (hs : ∀ l ∈ t.layers, v.superseded l = true) :
    Kept r known v (cs ++ ds) (live ++ live') memo' :=
  ⟨ht.ledger.join hu.ledger h, ht.memory.replace hu.memory h ht.ledger.lists hu.ledger.lists hs⟩

theorem into (ht : Kept r known t cs live memo) {l : Layer} (hl : l ≠ .run) :
    Kept r known (t.into l) (cs.map (Completion.into l)) live memo :=
  ⟨ht.ledger.into l, ht.memory.into hl⟩

end Kept

namespace StepResult

/-- What a result of a step records. -/
def recorded (s : Step) (result : StepResult) : Effects :=
  ⟨result.recordedOutputs, result.recordedCompensations s⟩

/-- What results record that are looked up among some steps. -/
def recordedAmong (steps : List Step) (results : List StepResult) : Effects :=
  ⟨recordedOutputsOf results, recordedCompensationsOf results steps⟩

@[simp] theorem recordedAmong_nil (steps : List Step) : recordedAmong steps [] = .empty := rfl

theorem recordedOutputsOf_append (as bs : List StepResult) :
    recordedOutputsOf (as ++ bs) = recordedOutputsOf as ++ recordedOutputsOf bs := by
  induction as with
  | nil => rfl
  | cons a as ih => simp only [List.cons_append, recordedOutputsOf, ih, List.append_assoc]

theorem recordedCompensationsOf_append (as bs : List StepResult) (steps : List Step) :
    recordedCompensationsOf (as ++ bs) steps =
      recordedCompensationsOf as steps ++ recordedCompensationsOf bs steps := by
  induction as with
  | nil => rfl
  | cons a as ih => simp only [List.cons_append, recordedCompensationsOf, ih, List.append_assoc]

theorem recordedAmong_append (steps : List Step) (as bs : List StepResult) :
    recordedAmong steps (as ++ bs) = recordedAmong steps as ++ recordedAmong steps bs := by
  show Effects.mk _ _ = Effects.mk _ _
  rw [recordedOutputsOf_append, recordedCompensationsOf_append]
  rfl

/-- A step is found by its name where names are different. -/
theorem find?_name {steps : List Step} (hn : (steps.map Step.name).Nodup) {i : Step}
    (hi : i ∈ steps) : (steps.find? fun s => s.name = i.name) = some i := by
  induction steps with
  | nil => contradiction
  | cons s rest ih =>
    rw [List.map_cons, List.nodup_cons] at hn
    obtain rfl | hi := List.mem_cons.1 hi
    · simp
    · have hne : s.name ≠ i.name := fun h => hn.1 (h ▸ List.mem_map_of_mem hi)
      rw [List.find?_cons_of_neg (by simpa using hne), ih hn.2 hi]

/-- The result of a step among others of different names records what it records for the step. -/
theorem recordedCompensationsOf_singleton {steps : List Step}
    (hn : (steps.map Step.name).Nodup) {i : Step} (hi : i ∈ steps) {result : StepResult}
    (h : result.name = i.name) :
    recordedCompensationsOf [result] steps = result.recordedCompensations i := by
  rw [recordedCompensationsOf, recordedCompensationsOf, h, find?_name hn hi, List.append_nil]

/-- Results of other names record nothing. -/
theorem recordedCompensationsOf_eq_nil {steps : List Step} {results : List StepResult}
    (h : ∀ result ∈ results, ∀ s ∈ steps, s.name ≠ result.name) :
    recordedCompensationsOf results steps = [] := by
  induction results with
  | nil => rfl
  | cons result rest ih =>
    have hnone : (steps.find? fun s => s.name = result.name) = none :=
      List.find?_eq_none.2 fun s hs => by simpa using h result List.mem_cons_self s hs
    rw [recordedCompensationsOf, hnone, ih fun a ha => h a (List.mem_cons_of_mem _ ha)]
    rfl

end StepResult

/-! ## Quiet traces -/

/-- The trace has no layers and tells nothing of account. -/
structure Trace.Quiet (t : Trace κ) : Prop where
  /-- It tells nothing of account. -/
  calm : t.Calm
  /-- It has no layers. -/
  layers : t.layers = []

/-- The request is at no layer and tells nothing of account. -/
def Inquiry.IsQuiet (q : Inquiry κ) : Prop := q.site = [] ∧ q.Calm

theorem Inquiry.IsWork.isQuiet {q : Inquiry κ} (h : q.IsWork) : q.IsQuiet := by
  cases h <;> exact ⟨rfl, fun _ h => by simp at h⟩

namespace Trace.Quiet

theorem of_asksOnly {α : Type} {s : RunScript κ α} {a : α} (hs : s.AsksOnly Inquiry.IsQuiet)
    (ht : s.Traces t a) : t.Quiet where
  calm := calm_of_asksOnly (hs.mono fun _ h _ => h.2) ht
  layers := List.filterMap_eq_nil_iff.2 fun e he => by
    rw [(hs.of_traces ht e he).1]
    rfl

theorem nil : Quiet ([] : Trace κ) := ⟨calm_nil, rfl⟩

theorem append (ht : t.Quiet) (hu : u.Quiet) : (t ++ u).Quiet :=
  ⟨ht.calm.append hu.calm, by rw [layers_append, ht.layers, hu.layers]; rfl⟩

end Trace.Quiet

/-! ## What happens inside a step -/

namespace Step

/-- **A step keeps account**: whatever its script exchanges, its effects and its result are what is
owed and remembered after it. -/
def Keeps (r : Runner κ) (s : Step) (run : RunScript κ StepOutcome) : Prop :=
  ∀ (t : Trace κ) (o : StepOutcome), run.Traces t o → o.result.name = s.name ∧
    ∃ cs, Kept r (s.Distinct r) t cs o.effects (o.result.recorded s)

/-- What happened inside a step, in certain layers, left these results and effects. -/
def Adds (r : Runner κ) (s : Step) (among : Layer → Prop) (t : Trace κ)
    (children : List StepResult) (effects : Effects) : Prop :=
  t.Calm ∧ (∀ l ∈ t.layers, among l) ∧
    ∃ cs, Kept r (s.Distinct r) t cs effects (StepResult.recordedAmong s.nested children)

namespace Adds

variable {s : Step} {among among' : Layer → Prop} {children children' : List StepResult}
  {effects effects' : Effects}

theorem among_of_mem (h : s.Adds r among t children effects) {l : Layer} (hl : l ∈ t.layers) :
    among l := h.2.1 l hl

theorem mono (h : s.Adds r among t children effects) (ha : ∀ l, among l → among' l) :
    s.Adds r among' t children effects := ⟨h.1, fun l hl => ha l (h.2.1 l hl), h.2.2⟩

/-- A quiet trace adds nothing. -/
theorem quiet (h : t.Quiet) : s.Adds r among t [] .empty :=
  ⟨h.calm, fun l hl => by rw [h.layers] at hl; contradiction, [], .nil h.calm h.layers, .nil⟩

/-- **What two parts add is added by both together.** -/
theorem join (ht : s.Adds r among t children effects) (hu : s.Adds r among' u children' effects')
    (h : Interleaving t u v) (hb : ∀ l m, among l → among' m → l.Before m)
    (hs : (∀ k, ¬ among (.attempt k)) ∨ ∀ k, ¬ among' (.attempt k)) :
    s.Adds r (fun l => among l ∨ among' l) v (children ++ children') (effects ++ effects') := by
  obtain ⟨htc, htl, cs, htk⟩ := ht
  obtain ⟨huc, hul, ds, huk⟩ := hu
  have hjoin : t.Joins u v := ⟨htc, huc, h, fun l hl m hm => hb l m (htl l hl) (hul m hm)⟩
  refine ⟨hjoin.calm, fun l hl => (h.mem_layers.1 hl).imp (htl l) (hul l), cs ++ ds, ?_⟩
  rw [StepResult.recordedAmong_append]
  exact htk.join huk hjoin (hs.imp (fun hs k hk => hs k (htl _ hk)) fun hs k hk => hs k (hul _ hk))

/-- Tries that were followed by another leave their effects, but not their results. -/
theorem replace (ht : s.Adds r among t children effects) (hu : s.Adds r among' u children' effects')
    (h : Interleaving t u v) (hb : ∀ l m, among l → among' m → l.Before m)
    (hs : ∀ l ∈ t.layers, v.superseded l = true) :
    s.Adds r (fun l => among l ∨ among' l) v children' (effects ++ effects') := by
  obtain ⟨htc, htl, cs, htk⟩ := ht
  obtain ⟨huc, hul, ds, huk⟩ := hu
  have hjoin : t.Joins u v := ⟨htc, huc, h, fun l hl m hm => hb l m (htl l hl) (hul m hm)⟩
  exact ⟨hjoin.calm, fun l hl => (h.mem_layers.1 hl).imp (htl l) (hul l), cs ++ ds,
    htk.replace huk hjoin hs⟩

theorem quiet_append (hq : t.Quiet) (hu : s.Adds r among u children effects) :
    s.Adds r among (t ++ u) children effects := by
  have hnone : s.Adds r (fun _ => False) t [] .empty := quiet hq
  exact (hnone.join hu (.append t u) (fun _ _ h => h.elim) (.inl fun _ => id)).mono
    fun l hl => hl.elim False.elim id

theorem append_quiet (ht : s.Adds r among t children effects) (hq : u.Quiet) :
    s.Adds r among (t ++ u) children effects := by
  have hnone : s.Adds r (fun _ => False) u [] .empty := quiet hq
  have h := ht.join hnone (.append t u) (fun _ _ _ h => h.elim) (.inr fun _ => id)
  rw [List.append_nil, Effects.append_empty] at h
  exact h.mono fun l hl => hl.elim id False.elim

/-- **A step run in a layer** adds its result and its effects. -/
theorem runAs {f : Planned κ} (hf : f.step.Keeps r f.run) (hm : f.step ∈ s.nested) {l : Layer}
    (hl : l ≠ .run) {o : StepOutcome} (h : (f.runAs l).Traces t o) :
    s.Adds r (· = l) t [o.result] o.effects := by
  obtain ⟨u, hu, rfl⟩ := RunScript.traces_under.1 h
  obtain ⟨hname, cs, hk⟩ := hf u o hu
  refine ⟨Trace.calm_into u l, fun m hm => Trace.mem_layers_into hm, _,
    ((hk.into hl).mono fun hd => hd.inside hm).congr ?_ fun hd => ?_⟩
  · exact (List.append_nil _).symm
  · exact (StepResult.recordedCompensationsOf_singleton hd.names hm hname).symm

end Adds

end Step

end Stepflow
