import Stepflow.Proofs.Document.Records
import Stepflow.Workflow.Codec

/-!
# Reading workflows from values

What the readers of workflows, of declarations, of steps, of retry policies and of options find in a
value. A step is read with as many levels as its value is deep, but no step is read differently with
more (`Step.read?_eq`), so a step is read from the fields of its object, and the steps inside it in the
same way (`Step.ofItem?_obj`).
-/

namespace Stepflow

open Item

/-! ## Readable fields -/

section Fields

variable {α : Type} {a default : α} {names : List String} {name : String} {o : Fields} {v : Value}
  {found : List (String × Item)} {read : Item → Option α}

/-- What stands under a name of an object can be read, if something does. -/
def Reads (o : Fields) (name : String) (read : Item → Option α) : Prop :=
  ∀ u, Table.get? o name = some u → (read (ofValue u)).isSome

/-- What stands at the place of a name of a record can be read, if something does. -/
def Value.Reads (v : Value) (names : List String) (name : String) (read : Item → Option α) : Prop :=
  ∀ s u, v.part? names name = some (s, u) → (read (ofValue u)).isSome

theorem Value.reads_obj (h : (Value.obj o).Reads names name read) : Stepflow.Reads o name read :=
  fun u hu => h (.field name) u (Value.part?_obj hu)

theorem reads_of_field? (hfound : (ofValue v).record? names = some found) (hname : name ∈ names)
    (h : field? found name default read = some a) : v.Reads names name read := by
  intro s u hu
  have hlookup := lookup_of_record? hfound hname
  rw [hu, Option.map_some] at hlookup
  rw [field?, hlookup] at h
  exact Option.isSome_of_eq_some h

/-- A required field stands somewhere. -/
theorem reads_of_required? (hfound : (ofValue v).record? names = some found)
    (hname : name ∈ names) (h : required? found name read = some a) :
    v.Reads names name read ∧ ∃ s u, v.part? names name = some (s, u) := by
  obtain ⟨i, hi, h⟩ := Option.bind_eq_some_iff.1 h
  rw [lookup_of_record? hfound hname] at hi
  obtain ⟨⟨s, u⟩, hpart, rfl⟩ := Option.map_eq_some_iff.1 hi
  refine ⟨fun t w hw => ?_, s, u, hpart⟩
  obtain ⟨rfl, rfl⟩ := Prod.mk.inj (Option.some.inj (hw.symm.trans hpart))
  exact Option.isSome_of_eq_some h

/-- A value that replaces the one under a name has to be readable. -/
theorem Reads.update (h : Reads (Table.update o name v) name read) (hname : name ∈ Table.names o) :
    (read (ofValue v)).isSome := h v (Table.get?_update_self hname)

/-- A field is read alike by readers that agree on what stands there. -/
theorem field?_congr {f g : Item → Option α} (hfound : (ofValue v).record? names = some found)
    (hname : name ∈ names) (h : ∀ u, u.depth < v.depth → f (ofValue u) = g (ofValue u)) :
    field? found name default f = field? found name default g := by
  rw [field?, field?, lookup_of_record? hfound hname]
  cases hpart : v.part? names name with
  | none => rfl
  | some p => exact h p.2 (Value.depth_lt_of_part? hpart)

theorem required?_congr {f g : Item → Option α} (hfound : (ofValue v).record? names = some found)
    (hname : name ∈ names) (h : ∀ u, u.depth < v.depth → f (ofValue u) = g (ofValue u)) :
    required? found name f = required? found name g := by
  rw [required?, required?, lookup_of_record? hfound hname]
  cases hpart : v.part? names name with
  | none => rfl
  | some p => exact h p.2 (Value.depth_lt_of_part? hpart)

theorem optional?_congr {f g : Item → Option α} {i : Item} (h : f i = g i) :
    optional? f i = optional? g i := by
  unfold optional?
  split
  · rfl
  · rw [h]
  · rw [h]

end Fields

namespace Step

/-! ## A step from the fields of its object -/

variable {o : Fields} {v t : Value} {k : String} {step? : Item → Option Step} {room other : Nat}

/-- The one value under `type`. -/
def typeValue? (o : Fields) : Option Value :=
  match o.filter fun e => e.1 = "type" with
  | [(_, t)] => some t
  | _ => none

/-- Reads a step from the fields of its object; `step?` reads the steps nested in it. -/
def ofFields? (step? : Item → Option Step) (o : Fields) : Option Step := do
  let common ← collectFields commonFields (ofFields o)
  let name ← required? common "name" text?
  let t ← typeValue? o
  let type ← typeOf? (ofValue t)
  let fields ← collectFields (payloadNames type) (ofFields o)
  let kind ← payload? step? fields type
  let condition ← field? common "when" none (optional? expression?)
  let retryPolicy ← field? common "retry_policy" none (optional? RetryPolicy.ofItem?)
  let onError ← field? common "on_error" none (optional? step?)
  let skipOnError ← field? common "skip_on_error" false bool?
  let rollback ← field? common "rollback" none (optional? text?)
  let checkpoint ← field? common "checkpoint" false bool?
  some { name, kind, condition, retryPolicy, onError, skipOnError, rollback, checkpoint }

theorem splitFields?_ofFields (o : Fields) : splitFields? (ofFields o) =
    (collectFields commonFields (ofFields o)).map fun common =>
      (common, ofFields (o.filter fun e => !commonFields.contains e.1)) := by
  induction o with
  | nil => rfl
  | cons e rest ih =>
    obtain ⟨k, v⟩ := e
    rw [collectFields_ofFields_cons, ofFields, splitFields?, ih]
    cases collectFields commonFields (ofFields rest) with
    | none => rfl
    | some common =>
      by_cases hk : k ∈ commonFields
      · cases hdup : (common.lookup k).isSome <;> simp [hk, hdup, text?]
      · simp [hk, text?, (writes_ofValue v).settle?, ofFields]

theorem filter_isTypeKey_ofFields (o : Fields) : (ofFields o).filter (fun e => isTypeKey e.1) =
    ofFields (o.filter fun e => e.1 = "type") := by
  induction o with
  | nil => rfl
  | cons e rest ih =>
    obtain ⟨k, v⟩ := e
    rw [ofFields, List.filter_cons, List.filter_cons, ih]
    by_cases hk : k = "type" <;> simp [isTypeKey, hk, ofFields]

theorem filter_not_isTypeKey_ofFields (o : Fields) : (ofFields o).filter (fun e => !isTypeKey e.1) =
    ofFields (o.filter fun e => !decide (e.1 = "type")) := by
  induction o with
  | nil => rfl
  | cons e rest ih =>
    obtain ⟨k, v⟩ := e
    rw [ofFields, List.filter_cons, List.filter_cons, ih]
    by_cases hk : k = "type" <;> simp [isTypeKey, hk, ofFields]

/-- The fields of a kind of step are none that all steps have, and none of them names the kind. -/
theorem payloadNames_apart {type : StepType} {name : String} (h : name ∈ payloadNames type) :
    name ∉ commonFields ∧ name ≠ "type" := by
  have hapart : ∀ name ∈ payloadNames type, name ∉ commonFields ∧ name ≠ "type" := by
    cases type <;> decide
  exact hapart name h

/-- **What a step does** is read from the fields of its object. -/
theorem kind?_ofFields (step? : Item → Option Step) (o : Fields) :
    kind? step? (ofFields (o.filter fun e => !commonFields.contains e.1)) =
      (typeValue? o).bind fun t => (typeOf? (ofValue t)).bind fun type =>
        (collectFields (payloadNames type) (ofFields o)).bind fun fields =>
          payload? step? fields type := by
  have htype : (o.filter fun e => !commonFields.contains e.1).filter (fun e => e.1 = "type") =
      o.filter fun e => e.1 = "type" := by
    rw [List.filter_filter]
    refine List.filter_congr fun e _ => ?_
    by_cases he : e.1 = "type" <;> simp [he, commonFields]
  have hpayload (type : StepType) : (Item.mapping (ofFields ((o.filter fun e =>
      !commonFields.contains e.1).filter fun e => !decide (e.1 = "type")))).record? (payloadNames type) =
      collectFields (payloadNames type) (ofFields o) := by
    rw [List.filter_filter]
    refine collectFields_filter (p := fun k => !decide (k = "type") && !commonFields.contains k)
      (fun name hname => ?_) o
    simpa using (payloadNames_apart hname).symm
  rw [kind?, filter_isTypeKey_ofFields, filter_not_isTypeKey_ofFields, htype, typeValue?]
  cases o.filter fun e => e.1 = "type" with
  | nil => rfl
  | cons e rest =>
    cases rest with
    | nil => simp only [ofFields, hpayload, Option.bind_some]; rfl
    | cons e' rest => rfl

theorem read?_obj (room : Nat) (o : Fields) :
    read? (room + 1) (ofValue (.obj o)) = ofFields? (read? room) o := by
  have hentries : (ofValue (.obj o)).entries? = some (ofFields o) := by rw [ofValue]; rfl
  rw [read?, hentries, ofFields?]
  simp only [Option.bind_eq_bind, Option.bind_some, splitFields?_ofFields]
  cases collectFields commonFields (ofFields o) with
  | none => rfl
  | some common => simp only [Option.map_some, Option.bind_some, kind?_ofFields, Option.bind_assoc]

/-! ## Enough levels -/

/-- Readers that agree on what is inside a value agree on the step in an option. -/
theorem option?_congr {f g : Item → Option Step}
    (h : ∀ u, u.depth < v.depth → f (ofValue u) = g (ofValue u)) :
    option? f (ofValue v) = option? g (ofValue v) := by
  unfold option?
  cases hfound : (ofValue v).record? ["when", "step"] with
  | none => rfl
  | some found =>
    have hstep : required? found "step" f = required? found "step" g :=
      required?_congr hfound (by simp) h
    simp only [Option.bind_eq_bind, Option.bind_some, hstep]

theorem ofFields?_congr {f g : Item → Option Step}
    (h : ∀ u, u.depth < (Value.obj o).depth → f (ofValue u) = g (ofValue u)) :
    ofFields? f o = ofFields? g o := by
  have hbelow {u w : Value} (hu : u.depth < (Value.obj o).depth) (hw : w.depth < u.depth) :
      f (ofValue w) = g (ofValue w) := h w (Nat.lt_trans hw hu)
  have hpayload (type : StepType) (fields : List (String × Item))
      (hfields : collectFields (payloadNames type) (ofFields o) = some fields) :
      payload? f fields type = payload? g fields type := by
    rw [← record?_obj] at hfields
    cases type with
    | validate =>
      have hfix : field? fields "on_failure" none (optional? f) =
          field? fields "on_failure" none (optional? g) :=
        field?_congr hfields (by simp [payloadNames]) fun u hu => optional?_congr (h u hu)
      simp only [payload?, hfix]
    | branch =>
      have hoptions : required? fields "options" (list? (option? f)) =
          required? fields "options" (list? (option? g)) :=
        required?_congr hfields (by simp [payloadNames]) fun u hu => list?_congr fun w hw =>
          option?_congr fun x hx => hbelow hu (Nat.lt_trans hx hw)
      simp only [payload?, hoptions]
    | parallel =>
      have hmembers : required? fields "steps" (list? f) = required? fields "steps" (list? g) :=
        required?_congr hfields (by simp [payloadNames]) fun u hu => list?_congr fun w hw =>
          hbelow hu hw
      simp only [payload?, hmembers]
    | _ => rfl
  unfold ofFields?
  cases hcommon : collectFields commonFields (ofFields o) with
  | none => rfl
  | some common =>
    rw [← record?_obj] at hcommon
    have hfallback : field? common "on_error" none (optional? f) =
        field? common "on_error" none (optional? g) :=
      field?_congr hcommon (by simp [commonFields]) fun u hu => optional?_congr (h u hu)
    simp only [Option.bind_eq_bind, Option.bind_some, hfallback]
    refine congrArg _ (funext fun name => congrArg _ (funext fun t => congrArg _ (funext fun type => ?_)))
    cases hfields : collectFields (payloadNames type) (ofFields o) with
    | none => rfl
    | some fields => simp only [Option.bind_some, hpayload type fields hfields]

/-- Only an object is read as a step. -/
theorem read?_eq_none (h : ∀ o, v ≠ .obj o) : read? room (ofValue v) = none := by
  cases room with
  | zero => rfl
  | succ room =>
    cases v with
    | obj o => exact absurd rfl (h o)
    | _ => rfl

/-- **As many levels as a value is deep** are enough to read a step. -/
theorem read?_eq (h : v.depth ≤ room) (h' : v.depth ≤ other) :
    read? room (ofValue v) = read? other (ofValue v) := by
  induction room generalizing v other with
  | zero =>
    have hnone : ∀ o, v ≠ .obj o := by
      rintro o rfl
      rw [Value.depth] at h
      contradiction
    rw [read?_eq_none hnone, read?_eq_none hnone]
  | succ room ih =>
    by_cases hobj : ∃ o, v = .obj o
    · obtain ⟨o, rfl⟩ := hobj
      cases other with
      | zero =>
        rw [Value.depth] at h'
        contradiction
      | succ other =>
        rw [read?_obj, read?_obj]
        exact ofFields?_congr fun u hu => ih (by omega) (by omega)
    · have hnone : ∀ o, v ≠ .obj o := fun o ho => hobj ⟨o, ho⟩
      rw [read?_eq_none hnone, read?_eq_none hnone]

theorem read?_eq_ofItem? (h : v.depth ≤ room) : read? room (ofValue v) = ofItem? (ofValue v) :=
  read?_eq h (writes_ofValue v).depth_le_height

/-- **A step** is read from the fields of its object, and so are the steps inside it. -/
theorem ofItem?_obj (o : Fields) : ofItem? (ofValue (.obj o)) = ofFields? ofItem? o := by
  rw [← read?_eq_ofItem? (Nat.le_succ _), read?_obj]
  exact ofFields?_congr fun u hu => read?_eq_ofItem? (Nat.le_of_lt hu)

/-! ## What has to be readable -/

/-- What the fields of a kind of step are read as. -/
def PayloadReadable (o : Fields) : StepType → Prop
  | .call => Reads o "action" text? ∧ Reads o "args" (list? value?) ∧ Reads o "kwargs" object?
  | .agent =>
    Reads o "agent" text? ∧ Reads o "context" object? ∧ Reads o "context_builder" (optional? text?)
  | .generate =>
    Reads o "generator" text? ∧ Reads o "context" object? ∧
      Reads o "context_builder" (optional? text?)
  | .validate =>
    Reads o "stages" (list? text?) ∧ Reads o "retry" (nat? countBound) ∧
      Reads o "on_failure" (optional? ofItem?)
  | .subworkflow => Reads o "workflow" text? ∧ Reads o "inputs" object?
  | .branch => Reads o "options" (list? (option? ofItem?))
  | .parallel => Reads o "steps" (list? ofItem?)

/-- The kind of step that an object names under `type`. -/
def stepType? (o : Fields) : Option StepType :=
  (Table.get? o "type").bind fun t => typeOf? (ofValue t)

/-- **The fields of a step** that is read can all be read. -/
structure Readable (o : Fields) : Prop where
  /-- Its name. -/
  name : Reads o "name" text?
  /-- Its condition. -/
  condition : Reads o "when" (optional? expression?)
  /-- Its retry policy. -/
  retryPolicy : Reads o "retry_policy" (optional? RetryPolicy.ofItem?)
  /-- Its fallback. -/
  onError : Reads o "on_error" (optional? ofItem?)
  /-- Whether its failures are passed over. -/
  skipOnError : Reads o "skip_on_error" bool?
  /-- What undoes it. -/
  rollback : Reads o "rollback" (optional? text?)
  /-- Whether it is followed by a checkpoint. -/
  checkpoint : Reads o "checkpoint" bool?
  /-- Its kind, with the fields of that kind, one of which has to be there. -/
  kind : ∃ type, stepType? o = some type ∧ PayloadReadable o type ∧
    ∃ name ∈ payloadNames type, name ∈ Table.names o

theorem get?_of_typeValue? (h : typeValue? o = some t) : Table.get? o "type" = some t := by
  unfold typeValue? at h
  split at h
  · next k u hfilter =>
    obtain rfl := Option.some.inj h
    clear h
    induction o with
    | nil => contradiction
    | cons e rest ih =>
      obtain ⟨name, v⟩ := e
      rw [List.filter_cons] at hfilter
      rw [Table.get?]
      split at hfilter
      · next hname =>
        rw [if_pos (by simpa using hname)]
        have := (List.cons.inj hfilter).1
        exact congrArg some (Prod.mk.inj this).2
      · next hname =>
        rw [if_neg (by simpa using hname)]
        exact ih hfilter
  · contradiction

theorem payloadReadable {type : StepType} {fields : List (String × Item)} {kind : StepKind Step}
    (hfields : collectFields (payloadNames type) (ofFields o) = some fields)
    (h : payload? ofItem? fields type = some kind) :
    PayloadReadable o type ∧ ∃ name ∈ payloadNames type, name ∈ Table.names o := by
  rw [← record?_obj] at hfields
  have hfield {α : Type} {name : String} {default a : α} {read : Item → Option α}
      (hname : name ∈ payloadNames type) (h : field? fields name default read = some a) :
      Reads o name read := Value.reads_obj (reads_of_field? hfields hname h)
  have hrequired {α : Type} {name : String} {a : α} {read : Item → Option α}
      (hname : name ∈ payloadNames type) (h : required? fields name read = some a) :
      Reads o name read ∧ ∃ name ∈ payloadNames type, name ∈ Table.names o := by
    obtain ⟨hreads, s, u, hpart⟩ := reads_of_required? hfields hname h
    obtain ⟨w, hw, -⟩ := Option.map_eq_some_iff.1 hpart
    exact ⟨Value.reads_obj hreads, name, hname, Table.mem_names_of_get? hw⟩
  cases type with
  | call =>
    obtain ⟨action, haction, h⟩ := Option.bind_eq_some_iff.1 h
    obtain ⟨args, hargs, h⟩ := Option.bind_eq_some_iff.1 h
    obtain ⟨kwargs, hkwargs, -⟩ := Option.bind_eq_some_iff.1 h
    obtain ⟨hreads, hpresent⟩ := hrequired (by simp [payloadNames]) haction
    exact ⟨⟨hreads, hfield (by simp [payloadNames]) hargs, hfield (by simp [payloadNames]) hkwargs⟩,
      hpresent⟩
  | agent | generate =>
    obtain ⟨name, hnamed, h⟩ := Option.bind_eq_some_iff.1 h
    obtain ⟨context, hcontext, h⟩ := Option.bind_eq_some_iff.1 h
    obtain ⟨builder, hbuilder, -⟩ := Option.bind_eq_some_iff.1 h
    obtain ⟨hreads, hpresent⟩ := hrequired (by simp [payloadNames]) hnamed
    exact ⟨⟨hreads, hfield (by simp [payloadNames]) hcontext,
      hfield (by simp [payloadNames]) hbuilder⟩, hpresent⟩
  | validate =>
    obtain ⟨stages, hstages, h⟩ := Option.bind_eq_some_iff.1 h
    obtain ⟨retry, hretry, h⟩ := Option.bind_eq_some_iff.1 h
    obtain ⟨fix, hfix, -⟩ := Option.bind_eq_some_iff.1 h
    obtain ⟨hreads, hpresent⟩ := hrequired (by simp [payloadNames]) hstages
    exact ⟨⟨hreads, hfield (by simp [payloadNames]) hretry, hfield (by simp [payloadNames]) hfix⟩,
      hpresent⟩
  | subworkflow =>
    obtain ⟨workflow, hworkflow, h⟩ := Option.bind_eq_some_iff.1 h
    obtain ⟨inputs, hinputs, -⟩ := Option.bind_eq_some_iff.1 h
    obtain ⟨hreads, hpresent⟩ := hrequired (by simp [payloadNames]) hworkflow
    exact ⟨⟨hreads, hfield (by simp [payloadNames]) hinputs⟩, hpresent⟩
  | branch | parallel =>
    obtain ⟨members, hmembers, -⟩ := Option.bind_eq_some_iff.1 h
    exact hrequired (by simp [payloadNames]) hmembers

/-- **A step that is read** has readable fields. -/
theorem readable (h : (ofItem? (ofValue (.obj o))).isSome) : Readable o := by
  obtain ⟨s, h⟩ := Option.isSome_iff_exists.1 h
  rw [ofItem?_obj] at h
  obtain ⟨common, hcommon, h⟩ := Option.bind_eq_some_iff.1 h
  obtain ⟨name, hname, h⟩ := Option.bind_eq_some_iff.1 h
  obtain ⟨t, ht, h⟩ := Option.bind_eq_some_iff.1 h
  obtain ⟨type, htype, h⟩ := Option.bind_eq_some_iff.1 h
  obtain ⟨fields, hfields, h⟩ := Option.bind_eq_some_iff.1 h
  obtain ⟨kind, hkind, h⟩ := Option.bind_eq_some_iff.1 h
  obtain ⟨condition, hcondition, h⟩ := Option.bind_eq_some_iff.1 h
  obtain ⟨retryPolicy, hretryPolicy, h⟩ := Option.bind_eq_some_iff.1 h
  obtain ⟨onError, honError, h⟩ := Option.bind_eq_some_iff.1 h
  obtain ⟨skipOnError, hskipOnError, h⟩ := Option.bind_eq_some_iff.1 h
  obtain ⟨rollback, hrollback, h⟩ := Option.bind_eq_some_iff.1 h
  obtain ⟨checkpoint, hcheckpoint, -⟩ := Option.bind_eq_some_iff.1 h
  rw [← record?_obj] at hcommon
  have hfield {α : Type} {name : String} {default a : α} {read : Item → Option α}
      (hname : name ∈ commonFields) (h : field? common name default read = some a) :
      Reads o name read := Value.reads_obj (reads_of_field? hcommon hname h)
  exact {
    name := Value.reads_obj (reads_of_required? hcommon (by simp [commonFields]) hname).1
    condition := hfield (by simp [commonFields]) hcondition
    retryPolicy := hfield (by simp [commonFields]) hretryPolicy
    onError := hfield (by simp [commonFields]) honError
    skipOnError := hfield (by simp [commonFields]) hskipOnError
    rollback := hfield (by simp [commonFields]) hrollback
    checkpoint := hfield (by simp [commonFields]) hcheckpoint
    kind := ⟨type, by rw [stepType?, get?_of_typeValue? ht]; exact htype,
      payloadReadable hfields hkind⟩ }

/-- **An option** that is read has a readable condition and a readable step. -/
theorem option_readable (h : (option? ofItem? (ofValue v)).isSome) :
    v.Reads ["when", "step"] "when" expression? ∧ v.Reads ["when", "step"] "step" ofItem? := by
  obtain ⟨o, h⟩ := Option.isSome_iff_exists.1 h
  obtain ⟨found, hfound, h⟩ := Option.bind_eq_some_iff.1 h
  obtain ⟨condition, hcondition, h⟩ := Option.bind_eq_some_iff.1 h
  obtain ⟨step, hstep, -⟩ := Option.bind_eq_some_iff.1 h
  exact ⟨(reads_of_required? hfound (by simp) hcondition).1,
    (reads_of_required? hfound (by simp) hstep).1⟩

end Step

/-- **A retry policy** that is read has readable fields. -/
theorem RetryPolicy.readable {v : Value} (h : (ofItem? (ofValue v)).isSome) :
    v.Reads ["max_attempts", "backoff"] "max_attempts" (nat? countBound) ∧
      v.Reads ["max_attempts", "backoff"] "backoff" float? := by
  obtain ⟨p, h⟩ := Option.isSome_iff_exists.1 h
  obtain ⟨found, hfound, h⟩ := Option.bind_eq_some_iff.1 h
  obtain ⟨maxAttempts, hmax, h⟩ := Option.bind_eq_some_iff.1 h
  obtain ⟨backoff, hbackoff, -⟩ := Option.bind_eq_some_iff.1 h
  exact ⟨reads_of_field? hfound (by simp) hmax, reads_of_field? hfound (by simp) hbackoff⟩

namespace InputDeclaration

/-- The fields of a declaration. -/
def names : List String := ["type", "required", "default", "description"]

/-- **The fields of a declaration** that is read can all be read. -/
structure Readable (v : Value) : Prop where
  /-- Its type. -/
  type : v.Reads names "type" (choice? InputType.ofWord?)
  /-- Whether it is required. -/
  required : v.Reads names "required" bool?
  /-- Its default. -/
  default : v.Reads names "default" (optional? value?)
  /-- Its description. -/
  description : v.Reads names "description" text?

theorem readable {v : Value} (h : (ofItem? (ofValue v)).isSome) : Readable v := by
  obtain ⟨d, h⟩ := Option.isSome_iff_exists.1 h
  obtain ⟨found, hfound, h⟩ := Option.bind_eq_some_iff.1 h
  obtain ⟨type, htype, h⟩ := Option.bind_eq_some_iff.1 h
  obtain ⟨required, hrequired, h⟩ := Option.bind_eq_some_iff.1 h
  obtain ⟨default, hdefault, h⟩ := Option.bind_eq_some_iff.1 h
  obtain ⟨description, hdescription, -⟩ := Option.bind_eq_some_iff.1 h
  exact {
    type := (reads_of_required? hfound (by simp) htype).1
    required := reads_of_field? hfound (by simp [names]) hrequired
    default := reads_of_field? hfound (by simp [names]) hdefault
    description := reads_of_field? hfound (by simp [names]) hdescription }

/-- The default that a declaration is read with is what stands there. -/
theorem default_eq {v u : Value} {s : Segment} {d : InputDeclaration} (h : ofItem? (ofValue v) = some d)
    (hu : v.part? names "default" = some (s, u)) : optional? value? (ofValue u) = some d.default := by
  obtain ⟨found, hfound, h⟩ := Option.bind_eq_some_iff.1 h
  obtain ⟨type, -, h⟩ := Option.bind_eq_some_iff.1 h
  obtain ⟨required, -, h⟩ := Option.bind_eq_some_iff.1 h
  obtain ⟨default, hdefault, h⟩ := Option.bind_eq_some_iff.1 h
  obtain ⟨description, -, h⟩ := Option.bind_eq_some_iff.1 h
  have hlookup : found.lookup "default" = (v.part? names "default").map fun p => ofValue p.2 :=
    lookup_of_record? hfound (by simp [names])
  rw [hu, Option.map_some] at hlookup
  rw [field?, hlookup] at hdefault
  rw [← Option.some.inj h]
  exact hdefault

end InputDeclaration

namespace Workflow

/-- The fields of a workflow. -/
def names : List String := ["version", "name", "description", "inputs", "steps"]

/-- **The fields of a workflow** that is read can all be read. -/
structure Readable (v : Value) : Prop where
  /-- Its version. -/
  version : v.Reads names "version" version?
  /-- Its name. -/
  name : v.Reads names "name" text?
  /-- Its description. -/
  description : v.Reads names "description" text?
  /-- The declarations of its inputs. -/
  inputs : v.Reads names "inputs" (table? InputDeclaration.ofItem?)
  /-- Its steps. -/
  steps : v.Reads names "steps" (list? Step.ofItem?)

theorem readable {v : Value} (h : (ofItem? (ofValue v)).isSome) : Readable v := by
  obtain ⟨w, h⟩ := Option.isSome_iff_exists.1 h
  obtain ⟨found, hfound, h⟩ := Option.bind_eq_some_iff.1 h
  obtain ⟨version, hversion, h⟩ := Option.bind_eq_some_iff.1 h
  obtain ⟨name, hname, h⟩ := Option.bind_eq_some_iff.1 h
  obtain ⟨description, hdescription, h⟩ := Option.bind_eq_some_iff.1 h
  obtain ⟨inputs, hinputs, h⟩ := Option.bind_eq_some_iff.1 h
  obtain ⟨steps, hsteps, -⟩ := Option.bind_eq_some_iff.1 h
  exact {
    version := (reads_of_required? hfound (by simp) hversion).1
    name := (reads_of_required? hfound (by simp) hname).1
    description := reads_of_field? hfound (by simp [names]) hdescription
    inputs := reads_of_field? hfound (by simp [names]) hinputs
    steps := (reads_of_required? hfound (by simp) hsteps).1 }

end Workflow

end Stepflow
