import Stepflow.Checkpoint.Basic
import Stepflow.Proofs.Json.Reading
import Stepflow.Proofs.Validation.Written

/-!
# Results and checkpoints read back

Writing has no bound on how deeply results and what steps produced are nested, reading has one. A
checkpoint whose text is within it is read back as it was, and one whose text is beyond it is not read
at all (`Checkpoint.ofText?_text`): every level of the text is needed by some question that the reader
asks, since a result has no field that it passes over.
-/

namespace Stepflow

open Item Json

/-! ## Results -/

theorem StepStatus.ofWord?_word (s : StepStatus) : ofWord? s.word = some s := by
  cases s <;> decide

namespace StepResult

theorem toValues_eq (results : List StepResult) : toValues results = results.map toValue := by
  induction results with
  | nil => rw [toValues]; rfl
  | cons r rest ih =>
    rw [toValues, ih]
    rfl

/-- The fields of the object of a result. -/
def entries (r : StepResult) : List (String × Value) :=
  [("name", .str r.name), ("step_type", .str r.type.word), ("status", .str r.status.word),
    ("output", r.output)] ++ fieldOf "error" .str r.error ++
    [("attempts", .int r.attempts), ("duration_ms", .int r.durationMs)] ++
    fieldUnless r.children.isEmpty "children" (.arr (r.children.map toValue))

theorem toValue_eq (r : StepResult) : r.toValue = .obj r.entries := by
  obtain ⟨name, type, status, output, error, attempts, durationMs, children⟩ := r
  rw [toValue, toValues_eq]
  rfl

theorem entries_among (r : StepResult) : Table.Among r.entries fields := by
  have hfirst : Table.Among [("name", Value.str r.name), ("step_type", .str r.type.word),
    ("status", .str r.status.word), ("output", r.output)]
    ["name", "step_type", "status", "output"] := List.Sublist.refl _
  have hcounts : Table.Among [("attempts", Value.int r.attempts), ("duration_ms", .int r.durationMs)]
    ["attempts", "duration_ms"] := List.Sublist.refl _
  exact ((hfirst.append (among_fieldOf _ _ _)).append hcounts).append (among_fieldUnless _ _ _)

theorem fields_nodup : fields.Nodup := by decide

/-- **A result as programs hold it**, with the results inside it. -/
inductive Proper : StepResult → Prop
  /-- What the step produced is a value as programs hold it, and the counts have their ranges. -/
  | intro {r : StepResult} : r.output.Proper → r.attempts < countBound → r.durationMs < durationBound →
      (∀ child ∈ r.children, child.Proper) → r.Proper

/-- The objects of the results inside a result are less deep than its own. -/
theorem depth_child_lt {r child : StepResult} (h : child ∈ r.children) :
    child.toValue.depth < r.toValue.depth := by
  have hchild := Value.depth_lt_of_mem (List.mem_map_of_mem (f := toValue) h)
  have hne : r.children.isEmpty = false := by
    rw [List.isEmpty_eq_false_iff]
    exact List.ne_nil_of_mem h
  rw [toValue_eq r]
  exact Nat.lt_trans hchild (Value.depth_lt_of_mem_fields
    (e := ("children", .arr (r.children.map toValue))) (by simp [entries, fieldUnless, hne]))

/-- **A result** is read back, if there is room for its object. -/
theorem read?_of_writes {room : Nat} {r : StepResult} {i : Item} (hroom : r.toValue.depth ≤ room)
    (hp : r.Proper) (h : i.Writes r.toValue) : read? room i = some r := by
  -- on the room: the object of an inner result is less deep, so the room left over is enough for it
  induction room generalizing r i with
  | zero =>
    rw [toValue_eq, Value.depth] at hroom
    contradiction
  | succ room ih =>
    obtain ⟨houtput, hattempts, hduration, hchildren⟩ := hp
    have hinner : ∀ child ∈ r.children, ∀ j, Writes j child.toValue → read? room j = some child :=
      fun child hc j hj => ih (Nat.le_of_lt_succ (Nat.lt_of_lt_of_le (depth_child_lt hc) hroom))
        (hchildren child hc) hj
    rw [toValue_eq] at h
    obtain ⟨found, hfound, hfinds⟩ := record?_of_writes fields h r.entries_among fields_nodup
    have hname : required? found "name" text? = some r.name :=
      (hfinds _).required?_text (by simp [entries])
    have htype : required? found "step_type" (choice? StepType.ofWord?) = some r.type :=
      (hfinds _).required? (.str r.type.word) (by simp [entries]) fun _ hi =>
        (hi.choice? _).trans r.type.ofWord?_word
    have hstatus : required? found "status" (choice? StepStatus.ofWord?) = some r.status :=
      (hfinds _).required? (.str r.status.word) (by simp [entries]) fun _ hi =>
        (hi.choice? _).trans r.status.ofWord?_word
    have hproduced : field? found "output" .null value? = some r.output :=
      (hfinds _).field? r.output (by simp [entries]) fun _ hi => hi.value?_of_proper houtput
    have herror : field? found "error" none (optional? text?) = some r.error :=
      (hfinds _).field?_optionalText (by simp [entries, List.lookup_append])
    have htries : field? found "attempts" 0 (nat? countBound) = some r.attempts :=
      (hfinds _).field? (.int r.attempts) (by simp [entries, List.lookup_append]) fun _ hi =>
        hi.nat? hattempts
    have htime : field? found "duration_ms" 0 (nat? durationBound) = some r.durationMs :=
      (hfinds _).field? (.int r.durationMs) (by simp [entries, List.lookup_append]) fun _ hi =>
        hi.nat? hduration
    have hinside : field? found "children" [] (list? (read? room)) = some r.children :=
      (hfinds _).field?_unless r.children.isEmpty (.arr (r.children.map toValue))
        (by simp [entries, List.lookup_append]) (by simp) fun _ _ hi => list?_of_writes hi hinner
    unfold read?
    simp only [hfound, Option.bind_eq_bind, Option.bind_some, hname, htype, hstatus, hproduced, herror,
      htries, htime, hinside]
    cases r
    rfl

/-- A field that is there was read. -/
theorem read_of_field? {α : Type} {found : List (String × Item)} {name : String} {i : Item}
    {default a : α} {read : Item → Option α} (h : field? found name default read = some a)
    (hi : found.lookup name = some i) : read i = some a := by
  rw [field?, hi] at h
  exact h

/-- **A result that is read** from printed text is within the room there was. -/
theorem depth_le_of_read? {fuel room : Nat} {r s : StepResult}
    (h : read? fuel (ofJson room (Json.ofValue r.toValue)) = some s) : r.toValue.depth ≤ room := by
  induction fuel generalizing room r s with
  | zero =>
    rw [read?] at h
    contradiction
  | succ fuel ih =>
    rw [read?, toValue_eq] at h
    obtain ⟨found, hrecord, hname⟩ := Option.bind_eq_some_iff.1 h
    obtain ⟨below, rfl, hfound⟩ := record?_ofJson r.entries_among fields_nodup hrecord
    -- the fields are asked for in turn, and only two of them can be deep
    obtain ⟨name, -, htype⟩ := Option.bind_eq_some_iff.1 hname
    obtain ⟨type, -, hstatus⟩ := Option.bind_eq_some_iff.1 htype
    obtain ⟨status, -, hproduced⟩ := Option.bind_eq_some_iff.1 hstatus
    obtain ⟨output, houtput, herror⟩ := Option.bind_eq_some_iff.1 hproduced
    obtain ⟨error, -, htries⟩ := Option.bind_eq_some_iff.1 herror
    obtain ⟨attempts, -, htime⟩ := Option.bind_eq_some_iff.1 htries
    obtain ⟨durationMs, -, hinner⟩ := Option.bind_eq_some_iff.1 htime
    obtain ⟨children, hchildren, -⟩ := Option.bind_eq_some_iff.1 hinner
    have hlookup := lookup_ofJson r.entries below
    rw [← hfound] at hlookup
    have hdeep : r.output.depth ≤ below := by
      refine depth_le_of_value? r.output below output (read_of_field? houtput ?_)
      rw [hlookup]
      simp [entries]
    have hinside : r.children.isEmpty = false → (Value.arr (r.children.map toValue)).depth ≤ below := by
      intro hne
      refine depth_le_of_list? (fun v hv n a hread => ?_) (read_of_field? hchildren ?_)
      · obtain ⟨child, -, rfl⟩ := List.mem_map.1 hv
        exact ih hread
      · rw [hlookup]
        simp [entries, List.lookup_append, hne]
    rw [toValue_eq, Value.depth, Nat.succ_le_succ_iff, Value.depthFields_le_iff, entries]
    simp only [List.forall_mem_append, List.forall_mem_cons, List.not_mem_nil, false_implies,
      implies_true, and_true]
    refine ⟨⟨⟨⟨?_, ?_, ?_, hdeep⟩, ?_⟩, ?_, ?_⟩, forall_mem_fieldUnless.2 hinside⟩
    · simp [Value.depth]
    · simp [Value.depth]
    · simp [Value.depth]
    · exact forall_mem_fieldOf.2 fun _ _ => by simp [Value.depth]
    · simp [Value.depth]
    · simp [Value.depth]

/-- The object of a result holds numbers within bounds. -/
theorem toValue_bounded {r : StepResult} (hp : r.Proper) : r.toValue.Throughout Value.Bounded := by
  induction hp with
  | @intro r houtput hattempts hduration _ ih =>
    have hduration' : (Value.int r.durationMs).Throughout Value.Bounded := by
      rw [Value.Throughout]
      exact ⟨by simp [Value.minInt], Int.ofNat_lt.2 hduration⟩
    rw [toValue_eq, Value.throughout_obj, entries]
    simp only [List.forall_mem_append, List.forall_mem_cons, List.not_mem_nil, false_implies,
      implies_true, and_true]
    refine ⟨⟨⟨⟨by simp, by simp, by simp, houtput.bounded⟩, ?_⟩,
      Value.throughout_count hattempts, hduration'⟩, ?_⟩
    · exact forall_mem_fieldOf.2 fun _ _ => Value.throughout_str _
    · refine forall_mem_fieldUnless.2 fun _ => ?_
      rw [Value.throughout_arr, List.forall_mem_map]
      exact ih

end StepResult

/-! ## Checkpoints -/

namespace Checkpoint

/-- The fields of the object of a checkpoint. -/
def entries (c : Checkpoint) : List (String × Value) :=
  [("checkpoint_id", .str c.id), ("workflow_name", .str c.workflow),
    ("inputs_hash", .str c.inputsHash), ("step_results", .arr (c.steps.map StepResult.toValue)),
    ("saved_at", .str c.savedAt.text)]

theorem toValue_eq (c : Checkpoint) : c.toValue = .obj c.entries := by
  rw [toValue, StepResult.toValues_eq]
  rfl

theorem entries_among (c : Checkpoint) : Table.Among c.entries
    ["checkpoint_id", "workflow_name", "inputs_hash", "step_results", "saved_at"] :=
  List.Sublist.refl _

/-- **A checkpoint whose parts survive their texts**: its results are such as programs hold, and its
time and every floating-point number in it are found again from their digits. -/
structure Legible (c : Checkpoint) : Prop where
  /-- The results are such as programs hold. -/
  results : ∀ r ∈ c.steps, r.Proper
  /-- Floating-point numbers are found again. -/
  numbers : c.toValue.Throughout Json.Legible
  /-- So is the time. -/
  time : Instant.read? c.savedAt.text = some c.savedAt

variable {c : Checkpoint}

theorem toValue_bounded (h : c.Legible) : c.toValue.Throughout Value.Bounded := by
  have hresults : ∀ r ∈ c.steps, r.toValue.Throughout Value.Bounded := fun r hr =>
    StepResult.toValue_bounded (h.results r hr)
  rw [toValue_eq, Value.throughout_obj, entries]
  simpa [Value.throughout_arr] using hresults

/-- **A checkpoint** is read back from what became of its object. -/
theorem ofItem?_of_writes {i : Item} (h : c.Legible) (hi : i.Writes c.toValue) :
    ofItem? i = some c := by
  rw [toValue_eq] at hi
  obtain ⟨found, hfound, hfinds⟩ := record?_of_writes _ hi c.entries_among (by decide)
  have hid : required? found "checkpoint_id" text? = some c.id :=
    (hfinds _).required?_text (by simp [entries])
  have hworkflow : required? found "workflow_name" text? = some c.workflow :=
    (hfinds _).required?_text (by simp [entries])
  have hinputs : required? found "inputs_hash" text? = some c.inputsHash :=
    (hfinds _).required?_text (by simp [entries])
  have hsteps : required? found "step_results" (list? StepResult.ofItem?) = some c.steps :=
    (hfinds _).required? (.arr (c.steps.map StepResult.toValue)) (by simp [entries]) fun _ hj =>
      list?_of_writes hj fun r hr _ hk =>
        StepResult.read?_of_writes hk.depth_le_height (h.results r hr) hk
  have htime : required? found "saved_at" (fun i => i.text?.bind Instant.read?) = some c.savedAt :=
    (hfinds _).required? (.str c.savedAt.text) (by simp [entries]) fun _ hj => by
      rw [hj.text?, Option.bind_some, h.time]
  unfold ofItem?
  simp only [hfound, Option.bind_eq_bind, Option.bind_some, hid, hworkflow, hinputs, hsteps]
  rw [htime]
  rfl

/-- **A checkpoint that is read** from printed text is within the room there was. -/
theorem depth_le_of_ofItem? {room : Nat} {d : Checkpoint}
    (h : ofItem? (ofJson room (Json.ofValue c.toValue)) = some d) : c.toValue.depth ≤ room := by
  rw [ofItem?, toValue_eq] at h
  obtain ⟨found, hrecord, hid⟩ := Option.bind_eq_some_iff.1 h
  obtain ⟨below, rfl, hfound⟩ := record?_ofJson c.entries_among (by decide) hrecord
  obtain ⟨id, -, hworkflow⟩ := Option.bind_eq_some_iff.1 hid
  obtain ⟨workflow, -, hinputs⟩ := Option.bind_eq_some_iff.1 hworkflow
  obtain ⟨hash, -, hresults⟩ := Option.bind_eq_some_iff.1 hinputs
  obtain ⟨steps, hsteps, -⟩ := Option.bind_eq_some_iff.1 hresults
  rw [required?, hfound, lookup_ofJson] at hsteps
  have hinside : (Value.arr (c.steps.map StepResult.toValue)).depth ≤ below := by
    have hlist : (ofJson below (Json.ofValue (.arr (c.steps.map StepResult.toValue)))).list?
        StepResult.ofItem? = some steps := by simpa [entries] using hsteps
    refine depth_le_of_list? (fun v hv n a hread => ?_) hlist
    obtain ⟨r, -, rfl⟩ := List.mem_map.1 hv
    exact StepResult.depth_le_of_read? hread
  rw [toValue_eq, Value.depth, Nat.succ_le_succ_iff, Value.depthFields_le_iff]
  simpa [entries, Value.depth] using hinside

/-- **The text of a checkpoint** is read back exactly if it is not too deep, and otherwise not read. -/
theorem ofText?_text (h : c.Legible) :
    ofText? c.text = if c.toValue.depth ≤ Json.maxDepth then some c else none := by
  rw [ofText?, text, Json.read?_pretty (toValue_bounded h) h.numbers, Option.map_some,
    Option.bind_some]
  split
  · rename_i hdepth
    exact ofItem?_of_writes h (Json.writes_ofJson _ _ hdepth)
  · rename_i hdeep
    refine Option.eq_none_iff_forall_ne_some.2 fun d hd => ?_
    exact hdeep (depth_le_of_ofItem? hd)

end Checkpoint

end Stepflow
