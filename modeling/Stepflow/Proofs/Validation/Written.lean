import Stepflow.Proofs.Validation.Loading
import Stepflow.Proofs.Workflow.Reading

/-!
# Checking what was written

The object of a workflow has no field that its reader passes over, and if the workflow is valid, the
object is a value that documents can hold: no number in it is infinite, and nothing that is written is
taken for missing.
-/

namespace Stepflow

open Value

/-! ## Unknown fields -/

namespace Value

/-- What stands under a name once the fields are in order. -/
theorem get?_inOrderFields {fs : List (String × Value)} (h : (fs.map Prod.fst).Nodup) (name : String) :
    Table.get? (Table.ofList (inOrderFields fs)) name = (fs.lookup name).map inOrder := by
  rw [Table.get?_ofList (names_inOrderFields fs ▸ h)]
  clear h
  induction fs with
  | nil => rw [inOrderFields]; rfl
  | cons e fs ih =>
    obtain ⟨k, v⟩ := e
    rw [inOrderFields, Table.lookup_cons, Table.lookup_cons, ih]
    split <;> rfl

/-- Putting fields in order adds no name. -/
theorem mem_names_inOrderFields {fs : List (String × Value)} {known : List String}
    (h : Table.Among fs known) {name : String}
    (hname : name ∈ Table.names (Table.ofList (inOrderFields fs))) : name ∈ known := by
  obtain ⟨⟨name, u⟩, he, rfl⟩ := List.mem_map.1 hname
  obtain ⟨v, hv, -⟩ := mem_inOrderFields.1 (Table.mem_ofList he)
  have hfirst : (name, v).1 ∈ known := Table.Among.mem h hv
  exact hfirst

end Value

namespace Validation

theorem unknownKeys_inOrder {fs : List (String × Value)} {known : List String}
    (h : Table.Among fs known) (loc : Location) :
    unknownKeys loc known (Table.ofList (inOrderFields fs)) = [] := by
  rw [unknownKeys, List.filter_eq_nil_iff.2 fun name hname => by
    simpa using mem_names_inOrderFields h hname]
  rfl

/-- A check that finds nothing in any member finds nothing in the list. -/
theorem flatMap_membersAt_eq_nil {α β : Type} {as : List α} {f : α → Value} {loc : Location}
    {check : Location × Value → List β} (h : ∀ a ∈ as, ∀ place, check (place, (f a).inOrder) = []) :
    (membersAt loc (some (.arr ((as.map f).map inOrder)))).flatMap check = [] := by
  refine List.flatMap_eq_nil_iff.2 fun e he => ?_
  rw [membersAt] at he
  obtain ⟨⟨v, n⟩, hv, rfl⟩ := List.mem_map.1 he
  have hmem : v ∈ (as.map f).map inOrder := (List.mem_zipIdx' hv).2 ▸ List.getElem_mem _
  rw [List.map_map] at hmem
  obtain ⟨a, ha, rfl⟩ := List.mem_map.1 hmem
  exact h a ha _

end Validation

namespace Step

open Validation

theorem known_of_mem_fields {t : StepType} {name : String} (h : name ∈ ["name", "type"] ++
    payloadFields (some t) ++
    ["when", "retry_policy", "on_error", "skip_on_error", "rollback", "checkpoint"]) :
    name ∈ stepFields ∨ name ∈ payloadFields (some t) := by
  simp only [List.mem_append] at h
  obtain (h | h) | h := h
  · exact .inl ((by decide : ["name", "type"] ⊆ stepFields) h)
  · exact .inr h
  · exact .inl (List.mem_cons_of_mem _ (List.mem_cons_of_mem _ h))

/-- **A written step** has no field that nothing reads, and neither have the steps inside it. -/
theorem unknownInStep_written (room : Nat) (loc : Location) (s : Step) :
    unknownInStep room loc s.toValue.inOrder = [] := by
  induction room generalizing loc s with
  | zero => rw [unknownInStep]
  | succ room ih =>
    have hget := get?_inOrderFields s.fields_nodup
    have htype : StepType.ofWord? (((Table.get? (Table.ofList (inOrderFields s.fields)) "type").bind
        Value.str?).getD "") = some s.kind.type := by
      rw [hget]
      exact s.kind.type.ofWord?_word
    have hpolicy : Table.get? (Table.ofList (inOrderFields s.fields)) "retry_policy" =
        (s.retryPolicy.map RetryPolicy.toValue).map inOrder := by
      rw [hget, s.lookup_fields_of_decoration (by decide)]
      simp [decorations, List.lookup_append]
    have hfallback : Table.get? (Table.ofList (inOrderFields s.fields)) "on_error" =
        (s.onError.map toValue).map inOrder := by
      rw [hget, s.lookup_fields_of_decoration (by decide)]
      simp [decorations, List.lookup_append]
    have hpayload {name : String} (h : name ∈ payloadFields (some s.kind.type)) :
        Table.get? (Table.ofList (inOrderFields s.fields)) name =
          ((payload s.kind).lookup name).map inOrder := by
      rw [hget, s.lookup_fields_of_payload h]
    rw [toValue_eq, inOrder]
    unfold unknownInStep
    simp only [htype, hpolicy, hfallback]
    refine List.append_eq_nil_iff.2 ⟨List.append_eq_nil_iff.2 ⟨List.append_eq_nil_iff.2 ⟨?own, ?policy⟩,
      ?fallback⟩, ?inner⟩
    case own =>
      rw [List.filter_eq_nil_iff.2 fun name hname => by
        simpa [Classical.or_iff_not_imp_left] using
          known_of_mem_fields (mem_names_inOrderFields s.fields_among hname)]
      rfl
    case policy =>
      cases s.retryPolicy with
      | none => rfl
      | some p =>
        have hamong : Table.Among
            [("max_attempts", Value.int p.maxAttempts), ("backoff", .float p.backoff)] policyFields :=
          List.Sublist.refl _
        simp only [Option.map_some, RetryPolicy.toValue, inOrder, unknownKeys_inOrder hamong]
    case fallback =>
      cases s.onError with
      | none => rfl
      | some t => exact ih _ t
    case inner =>
      -- only what is found under the names of its kind matters from here on
      clear hget hpolicy hfallback htype
      generalize Table.ofList (inOrderFields s.fields) = t at hpayload ⊢
      generalize s.kind = kind at hpayload ⊢
      cases kind with
      | validate stages retry fix =>
        simp only [StepKind.type]
        have hfix : t.get? "on_failure" = (fix.map toValue).map inOrder := by
          rw [hpayload (by simp [payloadFields, StepKind.type])]
          simp [payload, optional_eq]
        rw [hfix]
        cases fix with
        | none => rfl
        | some t => exact ih _ t
      | branch options =>
        have hoptions : t.get? "options" = some (.arr ((optionValues options).map inOrder)) := by
          rw [hpayload (by simp [payloadFields, StepKind.type])]
          simp [payload, inOrder, inOrderAll_eq]
        simp only [StepKind.type, hoptions, optionValues_eq]
        refine flatMap_membersAt_eq_nil fun o _ place => ?_
        have hamong : Table.Among [("when", Value.str o.condition.raw), ("step", o.step.toValue)]
          optionFields := List.Sublist.refl _
        have hstep := get?_inOrderFields (hamong.nodup (by decide)) "step"
        rw [inOrder]
        simp only [unknownKeys_inOrder hamong, hstep, List.nil_append]
        exact ih _ o.step
      | parallel members =>
        have hmembers : t.get? "steps" = some (.arr ((stepValues members).map inOrder)) := by
          rw [hpayload (by simp [payloadFields, StepKind.type])]
          simp [payload, inOrder, inOrderAll_eq]
        simp only [StepKind.type, hmembers, stepValues_eq]
        exact flatMap_membersAt_eq_nil fun s _ place => ih place s
      | _ => rfl

end Step

theorem Validation.unknownInInputs_written (inputs : Table InputDeclaration) :
    unknownInInputs (some (Value.obj (inputs.map fun e => (e.1, e.2.toValue))).inOrder) = [] := by
  rw [inOrder]
  refine List.flatMap_eq_nil_iff.2 fun e he => ?_
  have hmem := Table.mem_ofList he
  rw [inOrderFields_eq, List.map_map] at hmem
  obtain ⟨d, -, rfl⟩ := List.mem_map.1 hmem
  have hvalue : d.2.toValue.inOrder = .obj (Table.ofList (inOrderFields d.2.fields)) := by
    rw [InputDeclaration.toValue, inOrder, InputDeclaration.fields]
  simp only [Function.comp, hvalue, unknownKeys_inOrder d.2.fields_among]

open Validation in
/-- **A written workflow** has no field that nothing reads. -/
theorem Workflow.unknownFields_written (w : Workflow) : unknownFields w.toValue.inOrder = {} := by
  have hget := get?_inOrderFields (w.fields_among.nodup (by decide))
  have hinputs :
      unknownInInputs (Table.get? (Table.ofList (inOrderFields w.fields)) "inputs") = [] := by
    rw [hget, fields]
    cases w.inputs.isEmpty with
    | true => simp [List.lookup_append, unknownInInputs]
    | false => simp [List.lookup_append, unknownInInputs_written]
  have hsteps : Table.get? (Table.ofList (inOrderFields w.fields)) "steps" =
      some (.arr ((Step.stepValues w.steps).map inOrder)) := by
    rw [hget, fields]
    simp [List.lookup_append, inOrder, inOrderAll_eq]
  rw [toValue_eq, inOrder, unknownFields]
  congr 1
  rw [unknownKeys_inOrder w.fields_among, hinputs, hsteps, Step.stepValues_eq]
  exact flatMap_membersAt_eq_nil fun s _ place => s.unknownInStep_written _ place

/-! ## Bounds -/

theorem Value.throughout_obj {fs : List (String × Value)} :
    (Value.obj fs).Throughout Bounded ↔ ∀ e ∈ fs, e.2.Throughout Bounded := by
  rw [Throughout, throughoutFields_iff]
  exact and_iff_right trivial

theorem Value.throughout_arr {vs : List Value} :
    (Value.arr vs).Throughout Bounded ↔ ∀ v ∈ vs, v.Throughout Bounded := by
  rw [Throughout, throughoutAll_iff]
  exact and_iff_right trivial

@[simp] theorem Value.throughout_str (s : String) : (Value.str s).Throughout Bounded := by
  rw [Throughout]
  trivial

@[simp] theorem Value.throughout_bool (b : Bool) : (Value.bool b).Throughout Bounded := by
  rw [Throughout]
  trivial

/-- A count is well within the bounds of a whole number. -/
theorem Value.throughout_count {n : Nat} (h : n < countBound) : (Value.int n).Throughout Bounded := by
  rw [Throughout]
  have hbound : countBound = 4294967296 := rfl
  have hmin : minInt = -9223372036854775808 := rfl
  have hmax : intBound = 18446744073709551616 := rfl
  exact ⟨by omega, by omega⟩

theorem RetryPolicy.toValue_bounded {p : RetryPolicy} (ht : p.maxAttempts < countBound)
    (hb : p.backoff.isFinite = true) : p.toValue.Throughout Bounded := by
  have hbackoff : (Value.float p.backoff).Throughout Bounded := by
    rw [Throughout]
    exact hb
  rw [toValue, throughout_obj]
  simp [throughout_count ht, hbackoff]

theorem Step.payload_bounded {kind : StepKind Step} (hk : kind.Proper)
    (hin : ∀ t ∈ kind.inner, t.toValue.Throughout Bounded) :
    ∀ e ∈ payload kind, e.2.Throughout Bounded := by
  have hcontext (name : String) {context : Fields} (h : (Value.obj context).Proper) :
      ∀ e ∈ fieldUnless context.isEmpty name (.obj context), e.2.Throughout Bounded :=
    forall_mem_fieldUnless.2 fun _ => h.bounded
  have hbuilder (builder : Option String) :
      ∀ e ∈ fieldOf "context_builder" .str builder, e.2.Throughout Bounded :=
    forall_mem_fieldOf.2 fun _ _ => throughout_str _
  cases kind with
  | call action args kwargs =>
    rw [payload, List.forall_mem_append, List.forall_mem_append]
    refine ⟨⟨by simp, forall_mem_fieldUnless.2 fun _ => ?_⟩, hcontext _ hk.2⟩
    exact throughout_arr.2 fun v hv => (hk.1 v hv).bounded
  | agent agent context builder =>
    rw [payload, List.forall_mem_append, List.forall_mem_append]
    exact ⟨⟨by simp, hcontext _ hk⟩, hbuilder builder⟩
  | generate generator context builder =>
    rw [payload, List.forall_mem_append, List.forall_mem_append]
    exact ⟨⟨by simp, hcontext _ hk⟩, hbuilder builder⟩
  | validate stages retry fix =>
    have hstages : (Value.arr (stages.map .str)).Throughout Bounded :=
      throughout_arr.2 (List.forall_mem_map.2 fun s _ => throughout_str s)
    rw [payload, optional_eq, List.forall_mem_append]
    exact ⟨by simp [hstages, throughout_count hk],
      forall_mem_fieldOf.2 fun t ht => hin t (Option.mem_toList.2 ht)⟩
  | subworkflow workflow inputs =>
    rw [payload, List.forall_mem_append]
    exact ⟨by simp, hcontext _ hk⟩
  | branch options =>
    rw [payload, List.forall_mem_singleton, optionValues_eq, throughout_arr, List.forall_mem_map]
    exact fun o ho => throughout_obj.2 (by simp [hin o.step (List.mem_map_of_mem ho)])
  | parallel members =>
    rw [payload, List.forall_mem_singleton, stepValues_eq, throughout_arr, List.forall_mem_map]
    exact hin

/-- **A written step** holds numbers within bounds, if the delays of its retry policies are finite. -/
theorem Step.toValue_bounded {s : Step} (hp : ∀ t ∈ s.subtree, t.Proper)
    (hb : ∀ t ∈ s.subtree, ∀ p ∈ t.retryPolicy, p.backoff.isFinite = true) :
    s.toValue.Throughout Bounded := by
  induction s using Step.induction with
  | h s ih =>
    have hnested : ∀ t ∈ s.nested, t.toValue.Throughout Bounded := fun t ht =>
      ih t ht (fun u hu => hp u (subtree_subset ht hu)) fun u hu => hb u (subtree_subset ht hu)
    obtain ⟨hkind, -, htries⟩ := hp s s.mem_subtree_self
    have hpayload := payload_bounded hkind fun t ht => hnested t (List.mem_append_left _ ht)
    rw [toValue_eq, throughout_obj, fields, List.forall_mem_append, List.forall_mem_append]
    refine ⟨⟨by simp, hpayload⟩, ?_⟩
    simp only [decorations, List.forall_mem_append]
    refine ⟨⟨⟨⟨⟨?_, ?_⟩, ?_⟩, ?_⟩, ?_⟩, ?_⟩
    · exact forall_mem_fieldOf.2 fun _ _ => throughout_str _
    · exact forall_mem_fieldOf.2 fun p hmem =>
        RetryPolicy.toValue_bounded (htries p hmem) (hb s s.mem_subtree_self p hmem)
    · exact forall_mem_fieldOf.2 fun t ht =>
        hnested t (List.mem_append_right _ (Option.mem_toList.2 ht))
    · exact forall_mem_fieldUnless.2 fun _ => throughout_bool _
    · exact forall_mem_fieldOf.2 fun _ _ => throughout_str _
    · exact forall_mem_fieldUnless.2 fun _ => throughout_bool _

/-- **A written workflow** holds numbers within bounds, if all delays are finite. -/
theorem Workflow.toValue_bounded {w : Workflow} (hp : w.Proper)
    (hb : ∀ s ∈ w.steps.flatMap Step.subtree, ∀ p ∈ s.retryPolicy, p.backoff.isFinite = true) :
    w.toValue.Throughout Bounded := by
  have hdefault : ∀ e ∈ w.inputs, e.2.toValue.Throughout Bounded := fun e he => by
    rw [InputDeclaration.toValue, throughout_obj]
    simp only [List.forall_mem_append]
    refine ⟨⟨⟨by simp, ?_⟩, ?_⟩, ?_⟩
    · exact forall_mem_fieldUnless.2 fun _ => throughout_bool _
    · exact forall_mem_fieldOf.2 fun v hv => (hp.defaults e he v hv).bounded
    · exact forall_mem_fieldUnless.2 fun _ => throughout_str _
  have hsteps : ∀ s ∈ w.steps, s.toValue.Throughout Bounded := fun s hs =>
    Step.toValue_bounded (fun t ht => hp.steps t (List.mem_flatMap.2 ⟨s, hs, ht⟩))
      fun t ht => hb t (List.mem_flatMap.2 ⟨s, hs, ht⟩)
  rw [toValue_eq, throughout_obj, fields]
  simp only [List.forall_mem_append]
  refine ⟨⟨⟨by simp, ?_⟩, ?_⟩, ?_⟩
  · exact forall_mem_fieldUnless.2 fun _ => throughout_str _
  · exact forall_mem_fieldUnless.2 fun _ => throughout_obj.2 (List.forall_mem_map.2 hdefault)
  · rw [List.forall_mem_singleton, Step.stepValues_eq, throughout_arr, List.forall_mem_map]
    exact hsteps

/-! ## Valid workflows -/

namespace Validation

theorem issueIf_eq_nil {condition : Bool} {loc : Location} {problem : Problem} :
    issueIf condition loc problem = [] ↔ condition = false := by
  cases condition <;> simp [issueIf]

/-- If nothing is wrong with a tree of steps, nothing is wrong with any step in it. -/
theorem stepIssues_of_tree {scope : Scope} {loc : Location} {s t : Step}
    (h : treeIssues scope loc s = []) (ht : t ∈ s.subtree) :
    ∃ topLevel place, stepIssues scope topLevel place t = [] := by
  rw [Step.subtree_eq, ← s.located_steps loc] at ht
  obtain ⟨⟨place, t⟩, hmem, rfl⟩ := List.mem_map.1 ht
  unfold treeIssues at h
  split at h
  · next hnil =>
    rw [hnil] at hmem
    contradiction
  · next loc root inner hlocated =>
    rw [hlocated] at hmem
    rw [List.append_eq_nil_iff, List.flatMap_eq_nil_iff] at h
    obtain heq | hmem := List.mem_cons.1 hmem
    · obtain ⟨rfl, rfl⟩ := Prod.mk.inj heq
      exact ⟨true, _, h.1⟩
    · exact ⟨false, _, h.2 _ hmem⟩

theorem stepIssues_of_valid {w : Workflow} {before ss : List Step} {first : Nat}
    (h : stepsIssues w before first ss = []) {t : Step} (ht : t ∈ ss.flatMap Step.subtree) :
    ∃ scope topLevel place, stepIssues scope topLevel place t = [] := by
  induction ss generalizing before first with
  | nil => contradiction
  | cons s rest ih =>
    rw [stepsIssues, List.append_eq_nil_iff] at h
    rw [List.flatMap_cons, List.mem_append] at ht
    obtain ht | ht := ht
    · exact ⟨_, stepIssues_of_tree h.1 ht⟩
    · exact ih h.2 ht

end Validation

namespace Workflow

open Validation

variable {w : Workflow}

/-- **A valid workflow** has nothing wrong with its inputs and with its steps. -/
theorem parts_of_valid (h : w.check.isValid) :
    (∀ e ∈ w.inputs, inputIssues e.1 e.2 = []) ∧ stepsIssues w [] 0 w.steps = [] := by
  have hissues := List.isEmpty_iff.1 h
  simp only [check, List.append_eq_nil_iff, List.flatMap_eq_nil_iff] at hissues
  exact ⟨hissues.1.1.1.2, hissues.2⟩

/-- Its delays are finite. -/
theorem backoff_of_valid (h : w.check.isValid) {s : Step} (hs : s ∈ w.steps.flatMap Step.subtree)
    {p : RetryPolicy} (hp : p ∈ s.retryPolicy) : p.backoff.isFinite = true := by
  obtain ⟨scope, topLevel, loc, hnone⟩ := stepIssues_of_valid (parts_of_valid h).2 hs
  simp only [stepIssues, List.append_eq_nil_iff, List.flatMap_eq_nil_iff] at hnone
  have hpolicy := hnone.1.1.2 p (Option.mem_toList.2 hp)
  rw [policyIssues, List.append_eq_nil_iff, issueIf_eq_nil, issueIf_eq_nil] at hpolicy
  simpa using (Bool.or_eq_false_iff.1 hpolicy.2).1

/-- None of its defaults is null, which is of no type. -/
theorem default_of_valid (h : w.check.isValid) {e : String × InputDeclaration} (he : e ∈ w.inputs)
    {v : Value} (hv : v ∈ e.2.default) : v ≠ .null := by
  have hnone := (parts_of_valid h).1 e he
  obtain hv : e.2.default = some v := hv
  rw [inputIssues, hv, List.append_eq_nil_iff, issueIf_eq_nil, issueIf_eq_nil] at hnone
  rintro rfl
  have hnull : e.2.type.accepts .null = false := by cases e.2.type <;> rfl
  rw [hnull] at hnone
  exact absurd hnone.2 (by decide)

end Workflow

end Stepflow
