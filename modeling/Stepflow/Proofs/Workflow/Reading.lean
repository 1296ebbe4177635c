import Stepflow.Proofs.Document.Writing
import Stepflow.Proofs.Expression.Cutting
import Stepflow.Proofs.Step.Nesting
import Stepflow.Proofs.Workflow.Records
import Stepflow.Validation.Load
import Stepflow.Workflow.Codec

/-!
# Workflows read back

The fields that are left out of a written workflow are those whose values are the ones taken for
missing fields, so reading what became of the object of a workflow gives the workflow again. What is
needed of the workflow is what holds of every workflow that a program builds: references are read from
texts, tables are in the order of their keys, and numbers have their ranges.
-/

namespace Stepflow

section Fields

variable {α : Type}

@[simp] theorem lookup_fieldUnless (omitted : Bool) (name other : String) (v : Value) :
    (fieldUnless omitted name v).lookup other =
      if other = name then if omitted then none else some v else none := by
  cases omitted <;> simp [fieldUnless]

@[simp] theorem lookup_fieldOf (name other : String) (f : α → Value) (o : Option α) :
    (fieldOf name f o).lookup other = if other = name then o.map f else none := by
  cases o <;> simp [fieldOf]

theorem among_fieldUnless (omitted : Bool) (name : String) (v : Value) :
    Table.Among (fieldUnless omitted name v) [name] := by
  cases omitted with
  | true => exact List.nil_sublist _
  | false => exact Table.among_singleton

theorem among_fieldOf (name : String) (f : α → Value) (o : Option α) :
    Table.Among (fieldOf name f o) [name] := by
  cases o with
  | none => exact List.nil_sublist _
  | some a => exact Table.among_singleton

theorem forall_mem_fieldUnless {P : String × Value → Prop} {omitted : Bool} {name : String}
    {v : Value} : (∀ e ∈ fieldUnless omitted name v, P e) ↔ (omitted = false → P (name, v)) := by
  cases omitted <;> simp [fieldUnless]

theorem forall_mem_fieldOf {P : String × Value → Prop} {name : String} {f : α → Value} {o : Option α} :
    (∀ e ∈ fieldOf name f o, P e) ↔ ∀ a ∈ o, P (name, f a) := by
  cases o <;> simp [fieldOf]

end Fields

/-! ## What a workflow is built from -/

namespace Expression

/-- Whether a reference was read from a text, which is the only way to make one. -/
def IsRead (e : Expression) : Prop := ∃ text, parse text = .ok e

/-- The text that a reference keeps is read as that reference. -/
theorem IsRead.parse_raw {e : Expression} (h : e.IsRead) : parse e.raw = .ok e := by
  obtain ⟨text, h⟩ := h
  unfold parse parseChars at h
  split at h
  · contradiction
  · next inner hb =>
    obtain ⟨rest, hpre, hsuf⟩ := Option.bind_eq_some_iff.1 hb
    have henclosed : Text.trim text.toList = opening ++ inner ++ closing := by
      rw [Text.stripPrefix?_eq_some.1 hpre, Text.stripSuffix?_eq_some.1 hsuf, List.append_assoc]
    rw [henclosed] at h
    cases hbody : body inner with
    | error cause => rw [hbody] at h; contradiction
    | ok r =>
      rw [hbody] at h
      have he : e = ⟨String.ofList (opening ++ inner ++ closing), r.1, r.2.1, r.2.2⟩ :=
        (Except.ok.inj h).symm
      rw [he, parse, String.toList_ofList, parseChars_enclosed, hbody]
      rfl

end Expression

/-- What a step does, as programs hold it, the steps inside it left out. -/
def StepKind.Proper : StepKind Step → Prop
  | .call _ args kwargs => (∀ v ∈ args, v.Proper) ∧ (Value.obj kwargs).Proper
  | .agent _ context _ | .generate _ context _ => (Value.obj context).Proper
  | .validate _ retry _ => retry < countBound
  | .subworkflow _ inputs => (Value.obj inputs).Proper
  | .branch options => ∀ o ∈ options, o.condition.IsRead
  | .parallel _ => True

/-- A step as programs hold it, the steps inside it left out. -/
structure Step.Proper (s : Step) : Prop where
  /-- What it does. -/
  kind : s.kind.Proper
  /-- Its condition was read from a text. -/
  condition : ∀ e ∈ s.condition, e.IsRead
  /-- The number of its tries has 32 bits. -/
  tries : ∀ p ∈ s.retryPolicy, p.maxAttempts < countBound

/-- **A workflow as programs hold it.** -/
structure Workflow.Proper (w : Workflow) : Prop where
  /-- The inputs stand in the order of their names. -/
  inputs : w.inputs.Sorted
  /-- Their defaults are values as programs hold them. -/
  defaults : ∀ e ∈ w.inputs, ∀ v ∈ e.2.default, v.Proper
  /-- So are the steps at any depth. -/
  steps : ∀ s ∈ w.steps.flatMap Step.subtree, s.Proper

/-! ## Retry policies and inputs -/

open Item

theorem RetryPolicy.ofItem?_of_writes {p : RetryPolicy} {i : Item} (hp : p.maxAttempts < countBound)
    (h : i.Writes p.toValue) : ofItem? i = some p := by
  obtain ⟨found, hfound, hfinds⟩ :=
    record?_of_writes ["max_attempts", "backoff"] h (List.Sublist.refl _) (by simp)
  have hmax : field? found "max_attempts" 3 (nat? countBound) = some p.maxAttempts :=
    (hfinds _).field? (.int p.maxAttempts) rfl fun _ hi => hi.nat? hp
  have hbackoff : field? found "backoff" 1.0 float? = some p.backoff :=
    (hfinds _).field? (.float p.backoff) rfl fun _ hi => hi.float?
  unfold ofItem?
  simp only [hfound, Option.bind_eq_bind, Option.bind_some, hmax, hbackoff]

theorem InputType.ofWord?_word (t : InputType) : ofWord? t.word = some t := by
  cases t <;> decide

/-- The fields of the object of a declaration. -/
def InputDeclaration.fields (d : InputDeclaration) : List (String × Value) :=
  [("type", .str d.type.word)] ++ fieldUnless (!d.required) "required" (.bool true) ++
    fieldOf "default" id d.default ++
    fieldUnless (d.description = "") "description" (.str d.description)

theorem InputDeclaration.fields_among (d : InputDeclaration) :
    Table.Among d.fields Validation.inputFields :=
  ((Table.among_singleton.append (among_fieldUnless _ _ _)).append (among_fieldOf _ _ _)).append
    (among_fieldUnless _ _ _)

theorem InputDeclaration.ofItem?_of_writes {d : InputDeclaration} {i : Item}
    (hd : ∀ v ∈ d.default, v.Proper ∧ v ≠ .null) (h : i.Writes d.toValue) : ofItem? i = some d := by
  obtain ⟨found, hfound, hfinds⟩ :=
    record?_of_writes ["type", "required", "default", "description"] h d.fields_among (by simp)
  have htype : required? found "type" (choice? InputType.ofWord?) = some d.type :=
    (hfinds _).required? (.str d.type.word) (by simp) fun _ hi =>
      (hi.choice? _).trans d.type.ofWord?_word
  have hrequired : field? found "required" false bool? = some d.required :=
    (hfinds _).field?_flag (by simp [List.lookup_append])
  have hdefault : field? found "default" none (optional? value?) = some d.default :=
    (hfinds _).field?_of id (by simp [List.lookup_append]) (fun v hv => (hd v hv).2)
      fun v hv _ hi => hi.value?_of_proper (hd v hv).1
  have hdescription : field? found "description" "" text? = some d.description :=
    (hfinds _).field?_text (by simp [List.lookup_append])
  unfold ofItem?
  simp only [hfound, Option.bind_eq_bind, Option.bind_some, htype, hrequired, hdefault, hdescription]

/-! ## Steps -/

theorem StepType.ofWord?_word (t : StepType) : ofWord? t.word = some t := by
  cases t <;> decide

namespace Step

theorem optional_eq (name : String) (s : Option Step) : optional name s = fieldOf name toValue s := by
  cases s <;> simp [optional, fieldOf]

theorem optionValues_eq (options : List (BranchOption Step)) : optionValues options =
    options.map fun o => .obj [("when", .str o.condition.raw), ("step", o.step.toValue)] := by
  induction options with
  | nil => rw [optionValues]; rfl
  | cons o rest ih =>
    obtain ⟨condition, s⟩ := o
    rw [optionValues, ih]
    rfl

theorem stepValues_eq (steps : List Step) : stepValues steps = steps.map toValue := by
  induction steps with
  | nil => rw [stepValues]; rfl
  | cons s rest ih =>
    rw [stepValues, ih]
    rfl

/-- The fields of the object of a step that do not depend on its kind, its name left out. -/
def decorations (s : Step) : List (String × Value) :=
  fieldOf "when" (fun e : Expression => .str e.raw) s.condition ++
    fieldOf "retry_policy" RetryPolicy.toValue s.retryPolicy ++ fieldOf "on_error" toValue s.onError ++
    fieldUnless (!s.skipOnError) "skip_on_error" (.bool true) ++ fieldOf "rollback" .str s.rollback ++
    fieldUnless (!s.checkpoint) "checkpoint" (.bool true)

/-- The fields of the object of a step. -/
def fields (s : Step) : List (String × Value) :=
  [("name", .str s.name), ("type", .str s.kind.type.word)] ++ payload s.kind ++ decorations s

theorem toValue_eq (s : Step) : s.toValue = .obj s.fields := by
  obtain ⟨name, kind, condition, retryPolicy, onError, skipOnError, rollback, checkpoint⟩ := s
  rw [toValue, optional_eq]
  simp only [fields, decorations, List.append_assoc]

open Table in
/-- What a step does has no other fields than those of its kind. -/
theorem payload_among (kind : StepKind Step) :
    Table.Among (payload kind) (Validation.payloadFields (some kind.type)) := by
  cases kind with
  | call action args kwargs =>
    rw [payload]
    exact (among_singleton.append (among_fieldUnless _ _ _)).append (among_fieldUnless _ _ _)
  | agent agent context builder =>
    rw [payload]
    exact (among_singleton.append (among_fieldUnless _ _ _)).append (among_fieldOf _ _ _)
  | generate generator context builder =>
    rw [payload]
    exact (among_singleton.append (among_fieldUnless _ _ _)).append (among_fieldOf _ _ _)
  | validate stages retry fix =>
    rw [payload, optional_eq]
    exact (List.Sublist.refl ["stages", "retry"]).append (among_fieldOf "on_failure" _ _)
  | subworkflow workflow inputs =>
    rw [payload]
    exact among_singleton.append (among_fieldUnless _ _ _)
  | branch options =>
    rw [payload]
    exact among_singleton
  | parallel members =>
    rw [payload]
    exact among_singleton

theorem decorations_among (s : Step) : Table.Among s.decorations
    ["when", "retry_policy", "on_error", "skip_on_error", "rollback", "checkpoint"] :=
  (((((among_fieldOf _ _ _).append (among_fieldOf _ _ _)).append (among_fieldOf _ _ _)).append
    (among_fieldUnless _ _ _)).append (among_fieldOf _ _ _)).append (among_fieldUnless _ _ _)

/-- The fields of a step are those of all steps and those of its kind. -/
theorem fields_among (s : Step) : Table.Among s.fields (["name", "type"] ++
    Validation.payloadFields (some s.kind.type) ++
    ["when", "retry_policy", "on_error", "skip_on_error", "rollback", "checkpoint"]) := by
  have hnamed : Table.Among [("name", Value.str s.name), ("type", .str s.kind.type.word)]
    ["name", "type"] := List.Sublist.refl _
  exact (hnamed.append (payload_among s.kind)).append s.decorations_among

/-- No name is repeated among them. -/
theorem fields_nodup (s : Step) : (s.fields.map Prod.fst).Nodup := by
  refine s.fields_among.nodup ?_
  cases s.kind.type <;> decide

/-- The fields that are known of a kind of step are those that are read. -/
theorem payloadFields_eq (t : StepType) : Validation.payloadFields (some t) = payloadNames t := by
  cases t <;> rfl

theorem payloadNames_nodup (t : StepType) : (payloadNames t).Nodup := by
  cases t <;> decide

theorem payloadFields_apart {t : StepType} {name : String}
    (h : name ∈ Validation.payloadFields (some t)) : name ∉ commonFields ∧ name ≠ "type" :=
  payloadNames_apart (payloadFields_eq t ▸ h)

theorem payload_apart {kind : StepKind Step} {e : String × Value} (h : e ∈ payload kind) :
    e.1 ∉ commonFields ∧ e.1 ≠ "type" := payloadFields_apart ((payload_among kind).mem h)

theorem lookup_payload {kind : StepKind Step} {name : String} (h : name ∈ commonFields) :
    (payload kind).lookup name = none :=
  Table.lookup_eq_none fun hmem => by
    obtain ⟨e, he, rfl⟩ := List.mem_map.1 hmem
    exact (payload_apart he).1 h

theorem lookup_fields (s : Step) {name : String} (h : name ∈ commonFields) : s.fields.lookup name =
    if name = "name" then some (.str s.name) else s.decorations.lookup name := by
  have hne : name ≠ "type" := by
    rintro rfl
    revert h
    decide
  simp only [fields, List.lookup_append, lookup_payload h, Table.lookup_cons, List.lookup_nil, hne,
    if_false, Option.or_none]
  split <;> simp

/-- The fields that do not depend on the kind are found among the decorations. -/
theorem lookup_fields_of_decoration (s : Step) {name : String} (h : name ∈ commonFields.tail) :
    s.fields.lookup name = s.decorations.lookup name := by
  have hne : name ≠ "name" := by
    rintro rfl
    revert h
    decide
  rw [lookup_fields s (List.mem_of_mem_tail h), if_neg hne]

/-- The fields of its kind are found in what the step does. -/
theorem lookup_fields_of_payload (s : Step) {name : String}
    (h : name ∈ Validation.payloadFields (some s.kind.type)) :
    s.fields.lookup name = (payload s.kind).lookup name := by
  obtain ⟨hcommon, htype⟩ := payloadFields_apart h
  have hname : name ≠ "name" := fun heq => hcommon (heq ▸ List.mem_cons_self)
  have hnone : s.decorations.lookup name = none := Table.lookup_eq_none fun hmem => by
    obtain ⟨e, he, rfl⟩ := List.mem_map.1 hmem
    exact hcommon (List.mem_cons_of_mem _ (s.decorations_among.mem he))
  simp [fields, List.lookup_append, hname, htype, hnone]

/-- What is left of the fields of a step without those that all steps have. -/
theorem filter_fields (s : Step) : (s.fields.filter fun e => !commonFields.contains e.1) =
    ("type", .str s.kind.type.word) :: payload s.kind := by
  have hpayload : ((payload s.kind).filter fun e => !commonFields.contains e.1) = payload s.kind :=
    List.filter_eq_self.2 fun e he => by simpa using (payload_apart he).1
  have hdecorations : (s.decorations.filter fun e => !commonFields.contains e.1) = [] :=
    List.filter_eq_nil_iff.2 fun e he => by
      have hmem : e.1 ∈ commonFields := List.mem_cons_of_mem _ (s.decorations_among.mem he)
      simp [hmem]
  rw [fields, List.filter_append, List.filter_append, hpayload, hdecorations, List.append_nil]
  rfl

/-- The common fields of a step are parted from the others, which are settled. -/
theorem splitFields?_of_writes {fs : List (String × Value)} {entries : List (Item × Item)}
    (h : WritesFields entries fs) (hn : (fs.map Prod.fst).Nodup) :
    ∃ common, splitFields? entries =
        some (common, ofFields (fs.filter fun e => !commonFields.contains e.1)) ∧
      ∀ name ∈ commonFields, Finds common fs name := by
  induction fs generalizing entries with
  | nil =>
    rw [WritesFields] at h
    exact ⟨[], by rw [h, splitFields?]; simp [ofFields], fun _ _ => .none⟩
  | cons e fs ih =>
    obtain ⟨name, v⟩ := e
    rw [WritesFields] at h
    obtain ⟨k, i, rest, rfl, hk, hi, h⟩ := h
    rw [List.map_cons, List.nodup_cons] at hn
    obtain ⟨common, hsplit, hfinds⟩ := ih h hn.2
    have hkey : splitFields? ((k, i) :: rest) =
        if commonFields.contains name then
          if (common.lookup name).isSome then none
          else some ((name, i) :: common, ofFields (fs.filter fun e => !commonFields.contains e.1))
        else some (common, (.datum (.text name), ofValue v) ::
          ofFields (fs.filter fun e => !commonFields.contains e.1)) := by
      have htext := hk.text?
      obtain rfl | ⟨w, rfl, -⟩ := hk
      · simp [splitFields?, hsplit, hi.settle?, htext]
      · simp [splitFields?, hsplit, hi.settle?, htext]
    -- a common field is kept as it was written, any other is settled and put in front of the others
    by_cases hmem : name ∈ commonFields
    · have hnew := (hfinds name hmem).lookup_eq_none (Table.lookup_eq_none hn.1)
      refine ⟨(name, i) :: common, ?_, fun other hother => finds_cons hi (hfinds other hother)⟩
      rw [hkey]
      simp [hmem, hnew]
    · refine ⟨common, ?_, fun other hother => ?_⟩
      · rw [hkey]
        simp [hmem, ofFields]
      · have hne : other ≠ name := fun heq => hmem (heq ▸ hother)
        rw [Finds, Table.lookup_cons, if_neg hne]
        exact hfinds other hother

/-- Only the field `type` names the kind of a step. -/
theorem isTypeKey_of_mem {fs : List (String × Value)} (h : ∀ e ∈ fs, e.1 ≠ "type")
    {entry : Item × Item} (he : entry ∈ ofFields fs) : isTypeKey entry.1 = false := by
  induction fs with
  | nil =>
    rw [ofFields] at he
    contradiction
  | cons e fs ih =>
    obtain ⟨name, v⟩ := e
    rw [ofFields] at he
    obtain rfl | he := List.mem_cons.1 he
    · simpa [isTypeKey] using h _ List.mem_cons_self
    · exact ih (fun e he => h e (List.mem_cons_of_mem _ he)) he

theorem isTypeKey_payload {kind : StepKind Step} {entry : Item × Item}
    (h : entry ∈ ofFields (payload kind)) : isTypeKey entry.1 = false :=
  isTypeKey_of_mem (fun _ he => (payload_apart he).2) h

/-- The field that names the kind of a step, among those of what it does. -/
theorem filter_isTypeKey (kind : StepKind Step) :
    (ofFields (("type", .str kind.type.word) :: payload kind)).filter (fun e => isTypeKey e.1) =
      [(.datum (.text "type"), .datum (.text kind.type.word))] := by
  rw [ofFields, List.filter_cons_of_pos (by simp [isTypeKey]),
    List.filter_eq_nil_iff.2 fun entry he => by simp [isTypeKey_payload he], ofValue]

/-- And the others. -/
theorem filter_not_isTypeKey (kind : StepKind Step) :
    (ofFields (("type", .str kind.type.word) :: payload kind)).filter (fun e => !isTypeKey e.1) =
      ofFields (payload kind) := by
  rw [ofFields, List.filter_cons_of_neg (by simp [isTypeKey]),
    List.filter_eq_self.2 fun entry he => by simp [isTypeKey_payload he]]

section Kinds

variable {step? : Item → Option Step}

/-- An option of a branch is read back, if the step in it is. -/
theorem option_of_writes {o : BranchOption Step} (ho : o.condition.IsRead)
    (hstep : ∀ i, Writes i o.step.toValue → step? i = some o.step) {i : Item}
    (h : i.Writes (.obj [("when", .str o.condition.raw), ("step", o.step.toValue)])) :
    option? step? i = some o := by
  obtain ⟨found, hfound, hfinds⟩ :=
    record?_of_writes ["when", "step"] h (List.Sublist.refl _) (by simp)
  have hcondition : required? found "when" expression? = some o.condition :=
    (hfinds _).required? (.str o.condition.raw) rfl fun _ hi => hi.expression? ho.parse_raw
  have hinner : required? found "step" step? = some o.step :=
    (hfinds _).required? o.step.toValue rfl hstep
  unfold option?
  simp only [hfound, Option.bind_eq_bind, Option.bind_some, hcondition, hinner]

/-- **What a step does** is read back from its settled fields, if the steps inside it are. -/
theorem kind?_payload {kind : StepKind Step} (hk : kind.Proper)
    (hstep : ∀ s ∈ kind.inner, ∀ i, Writes i s.toValue → step? i = some s) :
    kind? step? (ofFields (("type", .str kind.type.word) :: payload kind)) = some kind := by
  -- the fields are settled by now, so they are data; what they write is still the same
  have hpayload : (Item.mapping (ofFields (payload kind))).Writes (.obj (payload kind)) := by
    have h := writes_ofValue (.obj (payload kind))
    rwa [ofValue] at h
  obtain ⟨found, hfound, hfinds⟩ := record?_of_writes (payloadNames kind.type) hpayload
    (payloadFields_eq _ ▸ payload_among kind) (payloadNames_nodup _)
  unfold kind?
  simp only [filter_isTypeKey, filter_not_isTypeKey, typeOf?, StepType.ofWord?_word,
    Option.bind_eq_bind, Option.bind_some, hfound]
  cases kind with
  | call action args kwargs =>
    have haction : required? found "action" text? = some action :=
      (hfinds _).required?_text (by simp [payload])
    have hargs : field? found "args" [] (list? value?) = some args :=
      (hfinds _).field?_unless args.isEmpty (.arr args) (by simp [payload, List.lookup_append])
        (by simp) fun _ _ hi => list?_of_writes ((List.map_id args).symm ▸ hi) fun v hv _ hj =>
          hj.value?_of_proper (hk.1 v hv)
    have hkwargs : field? found "kwargs" [] object? = some kwargs :=
      (hfinds _).field?_object hk.2 (by simp [payload, List.lookup_append])
    simp only [StepKind.type, payload?, Option.bind_eq_bind, Option.bind_some, haction, hargs, hkwargs]
  | agent agent context builder =>
    have hagent : required? found "agent" text? = some agent :=
      (hfinds _).required?_text (by simp [payload])
    have hcontext : field? found "context" [] object? = some context :=
      (hfinds _).field?_object hk (by simp [payload, List.lookup_append])
    have hbuilder : field? found "context_builder" none (optional? text?) = some builder :=
      (hfinds _).field?_optionalText (by simp [payload, List.lookup_append])
    simp only [StepKind.type, payload?, Option.bind_eq_bind, Option.bind_some, hagent, hcontext, hbuilder]
  | generate generator context builder =>
    have hgenerator : required? found "generator" text? = some generator :=
      (hfinds _).required?_text (by simp [payload])
    have hcontext : field? found "context" [] object? = some context :=
      (hfinds _).field?_object hk (by simp [payload, List.lookup_append])
    have hbuilder : field? found "context_builder" none (optional? text?) = some builder :=
      (hfinds _).field?_optionalText (by simp [payload, List.lookup_append])
    simp only [StepKind.type, payload?, Option.bind_eq_bind, Option.bind_some, hgenerator, hcontext, hbuilder]
  | validate stages retry fix =>
    have hstages : required? found "stages" (list? text?) = some stages :=
      (hfinds _).required? (.arr (stages.map .str)) (by simp [payload]) fun _ hi =>
        list?_of_writes hi fun _ _ _ hj => hj.text?
    have hretry : field? found "retry" defaultFixAttempts (nat? countBound) = some retry :=
      (hfinds _).field? (.int retry) (by simp [payload]) fun _ hi => hi.nat? hk
    have hfix : field? found "on_failure" none (optional? step?) = some fix :=
      (hfinds _).field?_of toValue (by simp [payload, optional_eq])
        (fun s _ => by simp [toValue_eq]) fun s hs => hstep s (Option.mem_toList.2 hs)
    simp only [StepKind.type, payload?, Option.bind_eq_bind, Option.bind_some, hstages, hretry, hfix]
  | subworkflow workflow inputs =>
    have hworkflow : required? found "workflow" text? = some workflow :=
      (hfinds _).required?_text (by simp [payload])
    have hinputs : field? found "inputs" [] object? = some inputs :=
      (hfinds _).field?_object hk (by simp [payload])
    simp only [StepKind.type, payload?, Option.bind_eq_bind, Option.bind_some, hworkflow, hinputs]
  | branch options =>
    have hoptions := (hfinds "options").required? (.arr (optionValues options)) (by simp [payload])
      fun _ hi => list?_of_writes (optionValues_eq options ▸ hi) fun o ho _ hj =>
        option_of_writes (hk o ho) (hstep o.step (List.mem_map_of_mem ho)) hj
    simp only [StepKind.type, payload?, Option.bind_eq_bind, Option.bind_some, hoptions]
  | parallel members =>
    have hmembers : required? found "steps" (list? step?) = some members :=
      (hfinds _).required? (.arr (stepValues members)) (by simp [payload]) fun _ hi =>
        list?_of_writes (stepValues_eq members ▸ hi) fun s hs => hstep s hs
    simp only [StepKind.type, payload?, Option.bind_eq_bind, Option.bind_some, hmembers]

end Kinds

theorem exists_payload_of_mem_inner {kind : StepKind Step} {t : Step} (h : t ∈ kind.inner) :
    ∃ e ∈ payload kind, t.toValue.depth ≤ e.2.depth := by
  cases kind with
  | validate stages retry fix =>
    obtain rfl := Option.mem_toList.1 h
    exact ⟨("on_failure", t.toValue), by simp [payload, optional], Nat.le_refl _⟩
  | branch options =>
    obtain ⟨o, ho, rfl⟩ := List.mem_map.1 h
    have hstep : o.step.toValue.depth < (Value.obj [("when", .str o.condition.raw),
        ("step", o.step.toValue)]).depth :=
      Value.depth_lt_of_mem_fields (e := ("step", o.step.toValue)) (by simp)
    have hoption := Value.depth_lt_of_mem (List.mem_map_of_mem (f := fun o : BranchOption Step =>
      Value.obj [("when", .str o.condition.raw), ("step", o.step.toValue)]) ho)
    refine ⟨("options", .arr (optionValues options)), by simp [payload], ?_⟩
    rw [optionValues_eq]
    exact Nat.le_of_lt (Nat.lt_trans hstep hoption)
  | parallel members =>
    have hmember := Value.depth_lt_of_mem (List.mem_map_of_mem (f := toValue) h)
    refine ⟨("steps", .arr (stepValues members)), by simp [payload], ?_⟩
    rw [stepValues_eq]
    exact Nat.le_of_lt hmember
  | _ => contradiction

/-- The objects of the steps inside a step are less deep than its own. -/
theorem depth_nested_lt {s t : Step} (h : t ∈ s.nested) : t.toValue.depth < s.toValue.depth := by
  rw [toValue_eq s]
  obtain h | h := List.mem_append.1 h
  · obtain ⟨e, he, hle⟩ := exists_payload_of_mem_inner h
    exact Nat.lt_of_le_of_lt hle (Value.depth_lt_of_mem_fields (by simp [fields, he]))
  · obtain h : s.onError = some t := Option.mem_toList.1 h
    exact Value.depth_lt_of_mem_fields (e := ("on_error", t.toValue))
      (by simp [fields, decorations, fieldOf, h])

theorem finds_decorations {s : Step} {common : List (String × Item)} {name : String}
    (hmem : name ∈ commonFields.tail) (h : Finds common s.fields name) :
    Finds common s.decorations name := by
  rwa [Finds, s.lookup_fields_of_decoration hmem] at h

/-- **A step** is read back, if there is room for its object. -/
theorem read?_of_writes {room : Nat} {s : Step} {i : Item} (hroom : s.toValue.depth ≤ room)
    (hp : ∀ t ∈ s.subtree, t.Proper) (h : i.Writes s.toValue) : read? room i = some s := by
  -- on the room: the object of an inner step is less deep, so the room left over is enough for it
  induction room generalizing s i with
  | zero =>
    rw [toValue_eq, Value.depth] at hroom
    contradiction
  | succ room ih =>
    have hnested : ∀ t ∈ s.nested, ∀ j, Writes j t.toValue → read? room j = some t := fun t ht j hj =>
      ih (Nat.le_of_lt_succ (Nat.lt_of_lt_of_le (depth_nested_lt ht) hroom))
        (fun u hu => hp u (subtree_subset ht hu)) hj
    obtain ⟨hkind, hcond, htries⟩ := hp s s.mem_subtree_self
    rw [toValue_eq, Writes] at h
    obtain ⟨entries, rfl, h⟩ := h
    obtain ⟨common, hsplit, hfinds⟩ := splitFields?_of_writes h s.fields_nodup
    rw [filter_fields] at hsplit
    have hname : required? common "name" text? = some s.name :=
      (hfinds _ (by decide)).required?_text (lookup_fields s (by decide))
    have hdone : kind? (read? room) (ofFields (("type", .str s.kind.type.word) :: payload s.kind)) =
        some s.kind := kind?_payload hkind fun t ht => hnested t (List.mem_append_left _ ht)
    have hdecorations := fun name hmem =>
      finds_decorations hmem (hfinds name (List.mem_of_mem_tail hmem))
    have hcondition : field? common "when" none (optional? expression?) = some s.condition :=
      (hdecorations _ (by decide)).field?_of (fun e => .str e.raw)
        (by simp [decorations, List.lookup_append]) (by simp)
        fun e he _ hi => hi.expression? (hcond e he).parse_raw
    have hpolicy : field? common "retry_policy" none (optional? RetryPolicy.ofItem?) =
        some s.retryPolicy :=
      (hdecorations _ (by decide)).field?_of RetryPolicy.toValue
        (by simp [decorations, List.lookup_append]) (by simp [RetryPolicy.toValue])
        fun p hp _ hi => RetryPolicy.ofItem?_of_writes (htries p hp) hi
    have honError : field? common "on_error" none (optional? (read? room)) = some s.onError :=
      (hdecorations _ (by decide)).field?_of toValue (by simp [decorations, List.lookup_append])
        (fun t _ => by simp [toValue_eq])
        fun t ht => hnested t (List.mem_append_right _ (Option.mem_toList.2 ht))
    have hskip : field? common "skip_on_error" false bool? = some s.skipOnError :=
      (hdecorations _ (by decide)).field?_flag (by simp [decorations, List.lookup_append])
    have hrollback : field? common "rollback" none (optional? text?) = some s.rollback :=
      (hdecorations _ (by decide)).field?_optionalText (by simp [decorations, List.lookup_append])
    have hcheckpoint : field? common "checkpoint" false bool? = some s.checkpoint :=
      (hdecorations _ (by decide)).field?_flag (by simp [decorations, List.lookup_append])
    unfold read?
    simp only [entries?, Option.bind_eq_bind, Option.bind_some, hsplit, hname, hdone, hcondition,
      hpolicy, honError, hskip, hrollback, hcheckpoint]
    cases s
    rfl

end Step

/-! ## Workflows -/

namespace Workflow

/-- The fields of the object of a workflow. -/
def fields (w : Workflow) : List (String × Value) :=
  [("version", .str w.version), ("name", .str w.name)] ++
    fieldUnless (w.description = "") "description" (.str w.description) ++
    fieldUnless w.inputs.isEmpty "inputs" (.obj (w.inputs.map fun e => (e.1, e.2.toValue))) ++
    [("steps", .arr (Step.stepValues w.steps))]

theorem toValue_eq (w : Workflow) : w.toValue = .obj w.fields := rfl

theorem fields_among (w : Workflow) : Table.Among w.fields Validation.workflowFields := by
  have hnamed : Table.Among [("version", Value.str w.version), ("name", .str w.name)]
    ["version", "name"] := List.Sublist.refl _
  exact ((hnamed.append (among_fieldUnless _ _ _)).append (among_fieldUnless _ _ _)).append
    Table.among_singleton

/-- **A workflow** is read back from what became of its object, if no default is null. -/
theorem ofItem?_of_writes {w : Workflow} {i : Item} (hp : w.Proper)
    (hdefaults : ∀ e ∈ w.inputs, ∀ v ∈ e.2.default, v ≠ .null) (h : i.Writes w.toValue) :
    ofItem? i = some w := by
  obtain ⟨found, hfound, hfinds⟩ :=
    record?_of_writes ["version", "name", "description", "inputs", "steps"] h w.fields_among (by simp)
  have hversion : required? found "version" version? = some w.version :=
    (hfinds _).required? (.str w.version) (by simp) fun i hi => by
      simp [version?, hi.settle?, ofValue]
  have hname : required? found "name" text? = some w.name :=
    (hfinds _).required?_text (by simp)
  have hdescription : field? found "description" "" text? = some w.description :=
    (hfinds _).field?_text (by simp [List.lookup_append])
  have hinputs : field? found "inputs" [] (table? InputDeclaration.ofItem?) = some w.inputs :=
    (hfinds _).field?_unless w.inputs.isEmpty (.obj (w.inputs.map fun e => (e.1, e.2.toValue)))
      (by simp [List.lookup_append]) (by simp) fun _ _ hi =>
        table?_of_writes (f := InputDeclaration.toValue) hi hp.inputs fun e he _ hj =>
          InputDeclaration.ofItem?_of_writes
            (fun v hv => ⟨hp.defaults e he v hv, hdefaults e he v hv⟩) hj
  have hsteps : required? found "steps" (list? Step.ofItem?) = some w.steps :=
    (hfinds _).required? (.arr (Step.stepValues w.steps)) (by simp [List.lookup_append]) fun _ hi =>
      list?_of_writes (Step.stepValues_eq w.steps ▸ hi) fun s hs _ hj =>
        Step.read?_of_writes hj.depth_le_height
          (fun t ht => hp.steps t (List.mem_flatMap.2 ⟨s, hs, ht⟩)) hj
  unfold ofItem?
  simp only [hfound, Option.bind_eq_bind, Option.bind_some, hversion, hname, hdescription, hinputs,
    hsteps]

end Workflow

end Stepflow
