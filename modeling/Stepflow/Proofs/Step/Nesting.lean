import Mathlib.Data.List.Flatten
import Stepflow.Run.Effects
import Stepflow.Validation.Definition

/-!
# Steps inside steps

Steps hold other steps at several places; `Step.nested` lists those directly inside. Every step can be
reached from the steps inside it, so what passes from all steps inside a step to the step itself holds
of every step.

`Step.Distinct` says that the results inside a step can be told apart by their names, as a replay does
when it looks for what they owe.
-/

namespace Stepflow

/-- What the step does is to run another workflow. -/
def StepKind.RunsWorkflow {α : Type} (kind : StepKind α) : Prop :=
  ∃ workflow inputs, kind = .subworkflow workflow inputs

namespace Step

theorem sizeOf_inner_lt {kind : StepKind Step} {i : Step} (h : i ∈ kind.inner) :
    sizeOf i < sizeOf kind := by
  cases kind with
  | validate stages retry fix =>
    obtain rfl := Option.mem_toList.1 h
    simp
    omega
  | branch options =>
    obtain ⟨o, ho, rfl⟩ := List.mem_map.1 h
    have hlt := List.sizeOf_lt_of_mem ho
    obtain ⟨condition, s⟩ := o
    simp at hlt ⊢
    omega
  | parallel members =>
    have hlt : sizeOf i < sizeOf members := List.sizeOf_lt_of_mem h
    simp
    omega
  | _ => contradiction

/-- A step inside a step is smaller. -/
theorem sizeOf_nested_lt {s i : Step} (h : i ∈ s.nested) : sizeOf i < sizeOf s := by
  obtain ⟨name, kind, condition, retryPolicy, onError, skipOnError, rollback, checkpoint⟩ := s
  obtain h | h := List.mem_append.1 h
  · have hlt : sizeOf i < sizeOf kind := sizeOf_inner_lt h
    simp
    omega
  · obtain rfl := Option.mem_toList.1 h
    simp
    omega

/-- **Induction on steps**: what passes from the steps inside a step to the step. -/
theorem induction {P : Step → Prop} (h : ∀ s : Step, (∀ i ∈ s.nested, P i) → P s) (s : Step) : P s :=
  h s fun i _ => induction h i
termination_by sizeOf s
decreasing_by exact sizeOf_nested_lt ‹_›

/-! ## The steps inside a step -/

theorem locatedOptions_steps {options : List (BranchOption Step)}
    (h : ∀ o ∈ options, ∀ loc, (o.step.located loc).map Prod.snd = o.step.subtree) (loc : Location)
    (place : Nat) : (locatedOptions loc place options).map Prod.snd =
      (options.map BranchOption.step).flatMap subtree := by
  induction options generalizing place with
  | nil => rw [locatedOptions]; rfl
  | cons o rest ih =>
    obtain ⟨condition, s⟩ := o
    rw [locatedOptions, List.map_append, h _ List.mem_cons_self,
      ih fun o ho => h o (List.mem_cons_of_mem _ ho)]
    rfl

theorem locatedMembers_steps {members : List Step}
    (h : ∀ s ∈ members, ∀ loc, (s.located loc).map Prod.snd = s.subtree) (loc : Location)
    (place : Nat) : (locatedMembers loc place members).map Prod.snd = members.flatMap subtree := by
  induction members generalizing place with
  | nil => rw [locatedMembers]; rfl
  | cons s rest ih =>
    rw [locatedMembers, List.map_append, h _ List.mem_cons_self,
      ih fun s hs => h s (List.mem_cons_of_mem _ hs)]
    rfl

theorem locatedOption_steps {s : Option Step}
    (h : ∀ i ∈ s, ∀ loc, (i.located loc).map Prod.snd = i.subtree) (loc : Location) :
    (locatedOption loc s).map Prod.snd = s.toList.flatMap subtree := by
  cases s with
  | none => rw [locatedOption]; rfl
  | some i =>
    rw [locatedOption, h i rfl, Option.toList_some, List.flatMap_singleton]

/-- **The steps in a step** are the step and those in the steps directly inside it, wherever it
stands. -/
theorem located_steps (s : Step) (loc : Location) :
    (s.located loc).map Prod.snd = s :: s.nested.flatMap subtree := by
  induction s using induction generalizing loc with
  | h s ih =>
    have hsub : ∀ i ∈ s.nested, ∀ loc, (i.located loc).map Prod.snd = i.subtree :=
      fun i hi loc => (ih i hi loc).trans (ih i hi []).symm
    obtain ⟨name, kind, condition, retryPolicy, onError, skipOnError, rollback, checkpoint⟩ := s
    have hinner : ∀ i ∈ kind.inner, ∀ loc, (i.located loc).map Prod.snd = i.subtree :=
      fun i hi => hsub i (List.mem_append_left _ hi)
    have hkind : (locatedKind loc kind).map Prod.snd = kind.inner.flatMap subtree := by
      cases kind with
      | validate stages retry fix =>
        rw [locatedKind]
        exact locatedOption_steps (fun i hi => hinner i (Option.mem_toList.2 hi)) _
      | branch options =>
        rw [locatedKind]
        exact locatedOptions_steps (fun o ho => hinner o.step (List.mem_map_of_mem ho)) _ _
      | parallel members =>
        rw [locatedKind]
        exact locatedMembers_steps hinner _ _
      | _ => rw [locatedKind]; rfl
    have hfallback := locatedOption_steps (s := onError)
      (fun i hi => hsub i (List.mem_append_right _ (Option.mem_toList.2 hi))) (loc.field "on_error")
    rw [located, List.map_cons, List.map_append, hkind, hfallback, ← List.flatMap_append]
    rfl

theorem subtree_eq (s : Step) : s.subtree = s :: s.nested.flatMap subtree := s.located_steps []

theorem mem_subtree_self (s : Step) : s ∈ s.subtree := by
  rw [subtree_eq]
  exact List.mem_cons_self

/-- What is in a step inside a step is in the step. -/
theorem subtree_subset {s i : Step} (h : i ∈ s.nested) : i.subtree ⊆ s.subtree := fun j hj => by
  rw [subtree_eq s]
  exact List.mem_cons_of_mem _ (List.mem_flatMap.2 ⟨i, h, hj⟩)

/-- And so is what is in it at any depth. -/
theorem subtree_trans {d s : Step} (h : s ∈ d.subtree) : s.subtree ⊆ d.subtree := by
  induction d using induction with
  | h d ih =>
    rw [subtree_eq, List.mem_cons, List.mem_flatMap] at h
    obtain rfl | ⟨i, hi, hs⟩ := h
    · exact List.Subset.refl _
    · exact fun j hj => subtree_subset hi (ih i hi hs hj)

/-- The names of steps are among the names in them. -/
theorem map_name_sublist (ss : List Step) : (ss.map name).Sublist (Workflow.namesIn ss) := by
  induction ss with
  | nil => exact .slnil
  | cons s rest ih =>
    rw [Workflow.namesIn, List.flatMap_cons, subtree_eq, List.cons_append, List.map_cons,
      List.map_cons, List.map_append]
    exact (ih.trans (List.sublist_append_right _ _)).cons_cons _

end Step

namespace Workflow

/-- Among more steps there are more names. -/
theorem namesIn_sublist {ss ts : List Step} (h : ss.Sublist ts) :
    (namesIn ss).Sublist (namesIn ts) := (h.flatMap Step.subtree).map Step.name

theorem namesIn_append (ss ts : List Step) : namesIn (ss ++ ts) = namesIn ss ++ namesIn ts := by
  rw [namesIn, List.flatMap_append, List.map_append]
  rfl

/-- The steps of a workflow with their locations are its steps at all depths. -/
theorem located_steps (w : Workflow) : w.located.map Prod.snd = w.steps.flatMap Step.subtree :=
  Step.locatedMembers_steps (fun s _ loc => (s.located_steps loc).trans (s.located_steps []).symm) _ _

/-- The names in a step are its own and those in the steps inside it. -/
theorem namesIn_singleton (s : Step) : namesIn [s] = s.name :: namesIn s.nested := by
  rw [namesIn, List.flatMap_singleton, Step.subtree_eq]
  rfl

/-- A name in one of some steps is in no other of them, if their names are different. -/
theorem eq_of_mem_namesIn {ss : List Step} (hn : (namesIn ss).Nodup) {i j : Step} (hi : i ∈ ss)
    (hj : j ∈ ss) {n : String} (hni : n ∈ namesIn [i]) (hnj : n ∈ namesIn [j]) : i = j := by
  induction ss with
  | nil => contradiction
  | cons s rest ih =>
    have hsplit : namesIn (s :: rest) = namesIn [s] ++ namesIn rest := namesIn_append [s] rest
    rw [hsplit, List.nodup_append] at hn
    have hrest : ∀ i ∈ rest, namesIn [i] ⊆ namesIn rest := fun i hi =>
      (namesIn_sublist (List.singleton_sublist.2 hi)).subset
    obtain rfl | hi' := List.mem_cons.1 hi <;> obtain rfl | hj' := List.mem_cons.1 hj
    · rfl
    · exact absurd rfl (hn.2.2 n hni n (hrest j hj' hnj))
    · exact absurd rfl (hn.2.2 n hnj n (hrest i hi' hni))
    · exact ih hn.2.1 hi' hj'

end Workflow

namespace Step

/-- **The results inside a step are told apart by their names**: the steps directly inside it have
different names, and the fallback of one that runs a workflow has no name of a step of that workflow;
and so it is for the steps inside it. -/
inductive Distinct {κ : Type} (r : Runner κ) : Step → Prop
  | intro {s : Step} (names : (s.nested.map Step.name).Nodup)
      (apart : ∀ workflow inputs, s.kind = .subworkflow workflow inputs →
        ∀ w, r.registry.workflows.get? workflow = some w →
          ∀ fallback ∈ s.onError, ∀ i ∈ w.steps, i.name ≠ fallback.name)
      (inside : ∀ i ∈ s.nested, Distinct r i) : Distinct r s

namespace Distinct

variable {κ : Type} {r : Runner κ} {s i : Step}

theorem names (h : s.Distinct r) : (s.nested.map Step.name).Nodup := by
  obtain ⟨h, _, _⟩ := h
  exact h

theorem apart (h : s.Distinct r) {workflow : String} {inputs : Fields}
    (hk : s.kind = .subworkflow workflow inputs) {w : Workflow}
    (hw : r.registry.workflows.get? workflow = some w) {fallback : Step}
    (hf : fallback ∈ s.onError) (hi : i ∈ w.steps) : i.name ≠ fallback.name := by
  obtain ⟨_, h, _⟩ := h
  exact h workflow inputs hk w hw fallback hf i hi

theorem inside (h : s.Distinct r) (hi : i ∈ s.nested) : i.Distinct r := by
  obtain ⟨_, _, h⟩ := h
  exact h i hi

end Distinct

/-- **Different names** at all depths tell the results apart, if no workflow is run. -/
theorem distinct_of_nodup {κ : Type} {r : Runner κ} {s : Step}
    (hk : ∀ i ∈ s.subtree, ¬ i.kind.RunsWorkflow) (hn : (s.subtree.map name).Nodup) : s.Distinct r := by
  induction s using induction with
  | h s ih =>
    rw [subtree_eq, List.map_cons, List.nodup_cons] at hn
    refine .intro (hn.2.sublist (map_name_sublist s.nested)) ?_ fun i hi => ?_
    · exact fun workflow inputs h => absurd ⟨workflow, inputs, h⟩ (hk s s.mem_subtree_self)
    · refine ih i hi (fun j hj => hk j (subtree_subset hi hj)) (hn.2.sublist ?_)
      exact (List.sublist_flatten_of_mem (List.mem_map_of_mem hi)).map _

end Step

namespace Workflow

/-- **A self-contained workflow**: no step in it runs another workflow, and its steps have different
names. -/
structure SelfContained (w : Workflow) : Prop where
  /-- The steps at any depth run no workflow. -/
  kinds : ∀ s ∈ w.steps.flatMap Step.subtree, ¬ s.kind.RunsWorkflow
  /-- Their names are different. -/
  names : (namesIn w.steps).Nodup

theorem SelfContained.distinct {κ : Type} {r : Runner κ} {w : Workflow} (hw : w.SelfContained) {s : Step}
    (hs : s ∈ w.steps) : s.Distinct r := by
  have hsub : s.subtree.Sublist (w.steps.flatMap Step.subtree) :=
    List.sublist_flatten_of_mem (List.mem_map_of_mem hs)
  exact Step.distinct_of_nodup (fun i hi => hw.kinds i (hsub.subset hi)) (hw.names.sublist (hsub.map _))

end Workflow

end Stepflow
