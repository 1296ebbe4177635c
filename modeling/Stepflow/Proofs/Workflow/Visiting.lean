import Stepflow.Proofs.Workflow.Records

/-!
# Where a workflow is read from

Reading a workflow from a value comes to other records inside the value: declarations of inputs, steps at
any depth, retry policies and options of branches. `RecordKind.Visits` says where each of them stands, and
each is read there (`Visits.read`). A place is visited in one way only (`Visits.determined`).

A record that is an object may have names that reading it passes over: whatever stands there, the same is
read (`PassesOver`). Those are the names that the record does not have (`passesOver_iff`).
-/

namespace Stepflow

open Item

/-- The records that a workflow is read from. -/
inductive RecordKind where
  /-- The workflow. -/
  | workflow
  /-- The declaration of an input. -/
  | input
  /-- A step. -/
  | step
  /-- A retry policy. -/
  | policy
  /-- An option of a branch. -/
  | option

/-- Whether a segment is a place in a list. -/
def Segment.isIndex : Segment → Bool
  | .field _ => false
  | .index _ => true

/-- Whether the kind of a step is named by a word. -/
def Step.namesKind (o : Fields) : Bool := ((Table.get? o "type").bind Value.str?).isSome

namespace RecordKind

/-- What a record is read as. -/
def Result : RecordKind → Type
  | .workflow => Workflow
  | .input => InputDeclaration
  | .step => Step
  | .policy => RetryPolicy
  | .option => BranchOption Step

/-- How a record is read. -/
def read? : (K : RecordKind) → Item → Option K.Result
  | .workflow => Workflow.ofItem?
  | .input => InputDeclaration.ofItem?
  | .step => Step.ofItem?
  | .policy => RetryPolicy.ofItem?
  | .option => Step.option? Step.ofItem?

/-! ## Records inside records -/

/-- **The records that reading a record comes to next**, with the way to each. The truth value tells those
that stand behind a list in the place of a record, or behind a kind of step that is no word. -/
inductive Child : RecordKind → Value → Bool → Location → RecordKind → Value → Prop
  /-- The declaration of an input. -/
  | input {w v : Value} {s : Segment} {inputs : Fields} {name : String}
      (hinputs : w.part? Workflow.names "inputs" = some (s, .obj inputs))
      (hv : Table.get? inputs name = some v) : Child .workflow w s.isIndex [s, .field name] .input v
  /-- A step of a workflow. -/
  | step {w v : Value} {s : Segment} {vs : List Value} {n : Nat}
      (hsteps : w.part? Workflow.names "steps" = some (s, .arr vs)) (hv : vs[n]? = some v) :
      Child .workflow w s.isIndex [s, .index n] .step v
  /-- The retry policy of a step. -/
  | policy {o : Fields} {v : Value} (hv : Table.get? o "retry_policy" = some v) (hne : v ≠ .null) :
      Child .step (.obj o) false [.field "retry_policy"] .policy v
  /-- Its fallback. -/
  | onError {o : Fields} {v : Value} (hv : Table.get? o "on_error" = some v) (hne : v ≠ .null) :
      Child .step (.obj o) false [.field "on_error"] .step v
  /-- The step that fixes what a validation finds. -/
  | onFailure {o : Fields} {v : Value} (htype : Step.stepType? o = some .validate)
      (hv : Table.get? o "on_failure" = some v) (hne : v ≠ .null) :
      Child .step (.obj o) (!Step.namesKind o) [.field "on_failure"] .step v
  /-- An option of a branch. -/
  | option {o : Fields} {v : Value} {vs : List Value} {n : Nat}
      (htype : Step.stepType? o = some .branch) (hoptions : Table.get? o "options" = some (.arr vs))
      (hv : vs[n]? = some v) :
      Child .step (.obj o) (!Step.namesKind o) [.field "options", .index n] .option v
  /-- The step of an option. -/
  | chosen {v u : Value} {s : Segment} (hu : v.part? ["when", "step"] "step" = some (s, u)) :
      Child .option v s.isIndex [s] .step u
  /-- A member of a parallel group. -/
  | member {o : Fields} {v : Value} {vs : List Value} {n : Nat}
      (htype : Step.stepType? o = some .parallel) (hsteps : Table.get? o "steps" = some (.arr vs))
      (hv : vs[n]? = some v) :
      Child .step (.obj o) (!Step.namesKind o) [.field "steps", .index n] .step v

/-- **The records that reading a record comes to**: the record itself, and those that reading one of the
records next to it comes to. -/
inductive Visits : RecordKind → Value → Bool → Location → RecordKind → Value → Prop
  /-- The record itself. -/
  | here {K : RecordKind} {v : Value} : Visits K v false [] K v
  /-- One further inside. -/
  | inside {K K₁ K₂ : RecordKind} {v v₁ v₂ : Value} {b b₁ : Bool} {l l₁ : Location}
      (hchild : Child K v b l K₁ v₁) (hrest : Visits K₁ v₁ b₁ l₁ K₂ v₂) :
      Visits K v (b || b₁) (l ++ l₁) K₂ v₂

variable {K K₁ K₂ : RecordKind} {v v₁ v₂ : Value} {b b₁ b₂ : Bool} {l l₁ l₂ : Location}

theorem isSome_of_optional? {α : Type} {read : Item → Option α}
    (h : (optional? read (ofValue v)).isSome) (hne : v ≠ .null) : (read (ofValue v)).isSome := by
  rw [(writes_ofValue v).optional? hne, Option.isSome_map] at h
  exact h

theorem isSome_of_list? {α : Type} {read : Item → Option α} {vs : List Value} {n : Nat}
    (h : ((ofValue (.arr vs)).list? read).isSome) (hv : vs[n]? = some v) :
    (read (ofValue v)).isSome := by
  obtain ⟨as, has⟩ := Option.isSome_iff_exists.1 h
  obtain ⟨us, hus, hall⟩ := list?_ofValue has
  obtain rfl := Value.arr.inj hus
  exact hall v (List.mem_of_getElem? hv)

/-- The record next to one that is read is read. -/
theorem Child.read (h : Child K v b l K₁ v₁) (hread : (K.read? (ofValue v)).isSome) :
    (K₁.read? (ofValue v₁)).isSome := by
  have payload {o : Fields} {type : StepType} (h : (Step.ofItem? (ofValue (.obj o))).isSome)
      (htype : Step.stepType? o = some type) : Step.PayloadReadable o type := by
    obtain ⟨type', htype', hpayload, -⟩ := (Step.readable h).kind
    exact Option.some.inj (htype'.symm.trans htype) ▸ hpayload
  cases h with
  | input hinputs hv =>
    obtain ⟨t, ht⟩ := Option.isSome_iff_exists.1 ((Workflow.readable hread).inputs _ _ hinputs)
    exact table?_ofValue ht _ (Table.mem_of_get? hv)
  | step hsteps hv => exact isSome_of_list? ((Workflow.readable hread).steps _ _ hsteps) hv
  | policy hv hne => exact isSome_of_optional? ((Step.readable hread).retryPolicy _ hv) hne
  | onError hv hne => exact isSome_of_optional? ((Step.readable hread).onError _ hv) hne
  | onFailure htype hv hne => exact isSome_of_optional? ((payload hread htype).2.2 _ hv) hne
  | option htype hoptions hv => exact isSome_of_list? (payload hread htype _ hoptions) hv
  | chosen hu => exact (Step.option_readable hread).2 _ _ hu
  | member htype hsteps hv => exact isSome_of_list? (payload hread htype _ hsteps) hv

/-- **Every record that is come to** is read. -/
theorem Visits.read (h : Visits K v b l K₁ v₁) (hread : (K.read? (ofValue v)).isSome) :
    (K₁.read? (ofValue v₁)).isSome := by
  induction h with
  | here => exact hread
  | inside hchild _ ih => exact ih (hchild.read hread)

/-! ## One way to a place -/

theorem Child.ne_nil (h : Child K v b l K₁ v₁) : l ≠ [] := by
  cases h <;> exact List.cons_ne_nil _ _

/-- The way to the next record tells it from the others. -/
theorem Child.determined (h₁ : Child K v b₁ l₁ K₁ v₁) (h₂ : Child K v b₂ l₂ K₂ v₂) {r₁ r₂ : Location}
    (h : l₁ ++ r₁ = l₂ ++ r₂) : b₁ = b₂ ∧ K₁ = K₂ ∧ v₁ = v₂ ∧ r₁ = r₂ := by
  -- two ways of different forms differ in a segment
  cases h₁ <;> cases h₂ <;> simp only [List.cons_append, List.nil_append, List.cons.injEq,
    Segment.field.injEq, Segment.index.injEq, reduceCtorEq, String.reduceEq, false_and, and_false,
    true_and] at h
  case input.input hinputs hv _ _ _ hinputs' hv' =>
    obtain ⟨rfl, rfl, rfl⟩ := h
    obtain ⟨-, hfields⟩ := Prod.mk.inj (Option.some.inj (hinputs.symm.trans hinputs'))
    obtain rfl := Value.obj.inj hfields
    exact ⟨rfl, rfl, Option.some.inj (hv.symm.trans hv'), rfl⟩
  case step.step hsteps hv _ _ _ hsteps' hv' =>
    obtain ⟨rfl, rfl, rfl⟩ := h
    obtain ⟨-, hitems⟩ := Prod.mk.inj (Option.some.inj (hsteps.symm.trans hsteps'))
    obtain rfl := Value.arr.inj hitems
    exact ⟨rfl, rfl, Option.some.inj (hv.symm.trans hv'), rfl⟩
  case policy.policy hv _ _ hv' | onError.onError hv _ _ hv' | onFailure.onFailure hv _ _ _ hv' =>
    exact ⟨rfl, rfl, Option.some.inj (hv.symm.trans hv'), h⟩
  case option.option hitems hv _ _ _ hitems' hv' | member.member hitems hv _ _ _ hitems' hv' =>
    obtain ⟨rfl, rfl⟩ := h
    obtain rfl := Value.arr.inj (Option.some.inj (hitems.symm.trans hitems'))
    exact ⟨rfl, rfl, Option.some.inj (hv.symm.trans hv'), rfl⟩
  case chosen.chosen hu _ hu' =>
    obtain ⟨rfl, rfl⟩ := h
    obtain ⟨-, hv⟩ := Prod.mk.inj (Option.some.inj (hu.symm.trans hu'))
    exact ⟨rfl, rfl, hv, rfl⟩

/-- **A place is come to in one way**, and holds one record. -/
theorem Visits.determined (h₁ : Visits K v b₁ l K₁ v₁) (h₂ : Visits K v b₂ l K₂ v₂) :
    b₁ = b₂ ∧ K₁ = K₂ ∧ v₁ = v₂ := by
  induction h₁ generalizing b₂ with
  | here =>
    generalize hl : ([] : Location) = l at h₂
    cases h₂ with
    | here => exact ⟨rfl, rfl, rfl⟩
    | inside hchild _ => exact absurd (List.append_eq_nil_iff.1 hl.symm).1 hchild.ne_nil
  | @inside K K₁ _ v v₁ _ b b' l l' hchild hrest ih =>
    generalize hl : l ++ l' = whole at h₂
    cases h₂ with
    | here => exact absurd (List.append_eq_nil_iff.1 hl).1 hchild.ne_nil
    | inside hchild' hrest' =>
      obtain ⟨rfl, rfl, rfl, rfl⟩ := hchild.determined hchild' hl
      obtain ⟨rfl, rfl, rfl⟩ := ih hrest'
      exact ⟨rfl, rfl, rfl⟩

/-! ## Names that are passed over -/

variable {o : Fields} {name : String}

/-- **A name that reading an object passes over**: whatever stands under it, the same is read. -/
def PassesOver (K : RecordKind) (o : Fields) (name : String) : Prop :=
  ∀ v, K.read? (ofValue (.obj (Table.update o name v))) = K.read? (ofValue (.obj o))

/-- The names that a record has. -/
def names (o : Fields) : RecordKind → List String
  | .workflow => Workflow.names
  | .input => InputDeclaration.names
  | .step => "type" :: Step.commonFields ++ ((Step.stepType? o).map Step.payloadNames).getD []
  | .policy => ["max_attempts", "backoff"]
  | .option => ["when", "step"]

/-- Other names of a step say nothing about it. -/
theorem ofFields?_update (h : name ∉ names o .step) (v : Value) :
    Step.ofFields? Step.ofItem? (Table.update o name v) = Step.ofFields? Step.ofItem? o := by
  rw [names, List.mem_append, List.mem_cons, not_or, not_or] at h
  obtain ⟨⟨htype, hcommon⟩, hpayload⟩ := h
  have htypeValue : Step.typeValue? (Table.update o name v) = Step.typeValue? o := by
    rw [Step.typeValue?, Table.filter_update (p := fun k => k = "type") (by simpa using htype)]
    rfl
  unfold Step.ofFields?
  rw [collectFields_update hcommon, htypeValue]
  refine congrArg _ (funext fun common => congrArg _ (funext fun stepName => ?_))
  cases ht : Step.typeValue? o with
  | none => rfl
  | some t =>
    simp only [Option.bind_eq_bind, Option.bind_some]
    cases hnamed : Step.typeOf? (ofValue t) with
    | none => rfl
    | some type =>
      have hknown : Step.stepType? o = some type := by
        rw [Step.stepType?, Step.get?_of_typeValue? ht]
        exact hnamed
      have hother : name ∉ Step.payloadNames type := by
        rw [hknown] at hpayload
        exact hpayload
      rw [Option.bind_some, Option.bind_some, collectFields_update hother]

/-- What a record does not have is passed over. -/
theorem passesOver_of_not_mem (h : name ∉ K.names o) : K.PassesOver o name := by
  intro v
  cases K with
  | workflow => exact congrArg (Option.bind · _) (record?_update h o v)
  | input => exact congrArg (Option.bind · _) (record?_update h o v)
  | policy => exact congrArg (Option.bind · _) (record?_update h o v)
  | option => exact congrArg (Option.bind · _) (record?_update h o v)
  | step =>
    change Step.ofItem? _ = Step.ofItem? _
    rw [Step.ofItem?_obj, Step.ofItem?_obj, ofFields?_update h]

/-- The default of a declaration is kept, so it is not passed over. -/
theorem not_passesOver_default (hpresent : "default" ∈ Table.names o)
    (hread : (input.read? (ofValue (.obj o))).isSome) : ¬input.PassesOver o "default" := by
  intro hpass
  obtain ⟨d, hd⟩ := Option.isSome_iff_exists.1 hread
  have hdefault (v : Value) : optional? value? (ofValue v) = some d.default :=
    InputDeclaration.default_eq ((hpass v).trans hd)
      (Value.part?_obj (Table.get?_update_self hpresent))
  have hnull : d.default = none := Option.some.inj ((hdefault .null).symm.trans rfl)
  have htrue : d.default = some (.bool true) := Option.some.inj ((hdefault (.bool true)).symm.trans rfl)
  rw [hnull] at htrue
  contradiction

/-- Every name of a kind of step has values with which the step is not read. -/
theorem payload_unreadable {type : StepType} (hpresent : name ∈ Table.names o)
    (h : name ∈ Step.payloadNames type)
    (hread : ∀ v, Step.PayloadReadable (Table.update o name v) type) : False := by
  have hnull := hread .null
  have htrue := hread (.bool true)
  cases type with
  | call =>
    simp only [Step.payloadNames, List.mem_cons, List.not_mem_nil, or_false] at h
    obtain rfl | rfl | rfl := h
    · exact absurd (hnull.1.update hpresent) (by decide)
    · exact absurd (hnull.2.1.update hpresent) (by decide)
    · exact absurd (hnull.2.2.update hpresent) (by decide)
  | agent | generate =>
    simp only [Step.payloadNames, List.mem_cons, List.not_mem_nil, or_false] at h
    obtain rfl | rfl | rfl := h
    · exact absurd (hnull.1.update hpresent) (by decide)
    · exact absurd (hnull.2.1.update hpresent) (by decide)
    · exact absurd (htrue.2.2.update hpresent) (by decide)
  | validate =>
    simp only [Step.payloadNames, List.mem_cons, List.not_mem_nil, or_false] at h
    obtain rfl | rfl | rfl := h
    · exact absurd (hnull.1.update hpresent) (by decide)
    · exact absurd (hnull.2.1.update hpresent) (by decide)
    · exact absurd (htrue.2.2.update hpresent) Bool.false_ne_true
  | subworkflow =>
    simp only [Step.payloadNames, List.mem_cons, List.not_mem_nil, or_false] at h
    obtain rfl | rfl := h
    · exact absurd (hnull.1.update hpresent) (by decide)
    · exact absurd (hnull.2.update hpresent) (by decide)
  | branch | parallel =>
    rw [Step.payloadNames, List.mem_singleton] at h
    subst h
    exact absurd (hnull.update hpresent) Bool.false_ne_true

/-- Every name of a step has values with which it is not read. -/
theorem exists_unreadable_step (hpresent : name ∈ Table.names o) (h : name ∈ names o .step) :
    ∃ v, Step.ofItem? (ofValue (.obj (Table.update o name v))) = none := by
  by_contra hall
  have hread (v : Value) : Step.Readable (Table.update o name v) :=
    Step.readable (Option.isSome_iff_ne_none.2 fun hnone => hall ⟨v, hnone⟩)
  rw [names, List.mem_append, List.mem_cons] at h
  obtain (rfl | hcommon) | hpayload := h
  · obtain ⟨type, htype, -⟩ := (hread .null).kind
    rw [Step.stepType?, Table.get?_update_self hpresent] at htype
    contradiction
  · simp only [Step.commonFields, List.mem_cons, List.not_mem_nil, or_false] at hcommon
    obtain rfl | rfl | rfl | rfl | rfl | rfl | rfl := hcommon
    · exact absurd ((hread .null).name.update hpresent) (by decide)
    · exact absurd ((hread (.bool true)).condition.update hpresent) (by decide)
    · exact absurd ((hread (.bool true)).retryPolicy.update hpresent) Bool.false_ne_true
    · exact absurd ((hread (.bool true)).onError.update hpresent) Bool.false_ne_true
    · exact absurd ((hread .null).skipOnError.update hpresent) (by decide)
    · exact absurd ((hread (.bool true)).rollback.update hpresent) (by decide)
    · exact absurd ((hread .null).checkpoint.update hpresent) (by decide)
  · cases htype : Step.stepType? o with
    | none =>
      rw [htype] at hpayload
      contradiction
    | some type =>
      rw [htype] at hpayload
      have hne : name ≠ "type" := (Step.payloadNames_apart hpayload).2
      have hkind (v : Value) : Step.PayloadReadable (Table.update o name v) type := by
        obtain ⟨type', htype', hreadable, -⟩ := (hread v).kind
        rw [Step.stepType?, Table.get?_update_of_ne hne, ← Step.stepType?, htype] at htype'
        exact Option.some.inj htype' ▸ hreadable
      exact payload_unreadable hpresent hpayload hkind

/-- What a record has is not. -/
theorem not_passesOver_of_mem (hread₀ : (K.read? (ofValue (.obj o))).isSome)
    (hpresent : name ∈ Table.names o) (h : name ∈ K.names o) : ¬K.PassesOver o name := by
  intro hpass
  have hread (v : Value) : (K.read? (ofValue (.obj (Table.update o name v)))).isSome :=
    hpass v ▸ hread₀
  cases K with
  | workflow =>
    have hnull := Workflow.readable (hread .null)
    simp only [names, Workflow.names, List.mem_cons, List.not_mem_nil, or_false] at h
    obtain rfl | rfl | rfl | rfl | rfl := h
    · exact absurd ((Value.reads_obj hnull.version).update hpresent) (by decide)
    · exact absurd ((Value.reads_obj hnull.name).update hpresent) (by decide)
    · exact absurd ((Value.reads_obj hnull.description).update hpresent) (by decide)
    · exact absurd ((Value.reads_obj hnull.inputs).update hpresent) (by decide)
    · exact absurd ((Value.reads_obj hnull.steps).update hpresent) (by decide)
  | input =>
    have hnull := InputDeclaration.readable (hread .null)
    simp only [names, InputDeclaration.names, List.mem_cons, List.not_mem_nil, or_false] at h
    obtain rfl | rfl | rfl | rfl := h
    · exact absurd ((Value.reads_obj hnull.type).update hpresent) (by decide)
    · exact absurd ((Value.reads_obj hnull.required).update hpresent) (by decide)
    · exact not_passesOver_default hpresent hread₀ hpass
    · exact absurd ((Value.reads_obj hnull.description).update hpresent) (by decide)
  | policy =>
    have hnull := RetryPolicy.readable (hread .null)
    simp only [names, List.mem_cons, List.not_mem_nil, or_false] at h
    obtain rfl | rfl := h
    · exact absurd ((Value.reads_obj hnull.1).update hpresent) (by decide)
    · exact absurd ((Value.reads_obj hnull.2).update hpresent) Bool.false_ne_true
  | option =>
    have hnull := Step.option_readable (hread .null)
    simp only [names, List.mem_cons, List.not_mem_nil, or_false] at h
    obtain rfl | rfl := h
    · exact absurd ((Value.reads_obj hnull.1).update hpresent) (by decide)
    · exact absurd ((Value.reads_obj hnull.2).update hpresent) (by decide)
  | step =>
    obtain ⟨v, hv⟩ := exists_unreadable_step hpresent h
    have hstep : (Step.ofItem? (ofValue (.obj (Table.update o name v)))).isSome := hread v
    rw [hv] at hstep
    contradiction

/-- **What is passed over** at a record that is read are the names that such records do not have. -/
theorem passesOver_iff (hread : (K.read? (ofValue (.obj o))).isSome) (hpresent : name ∈ Table.names o) :
    K.PassesOver o name ↔ name ∉ K.names o :=
  ⟨fun hpass h => not_passesOver_of_mem hread hpresent h hpass, passesOver_of_not_mem⟩

end RecordKind

end Stepflow
