import Stepflow.Proofs.Workflow.Reading
import Stepflow.Proofs.Workflow.Visiting
import Stepflow.Validation.Load

/-!
# What the check for unknown fields reports

The check for unknown fields goes through the value of a document once more, on its own. What it reports
of a record are the names that it does not know there, and what it reports of the records next to it; of
these it comes to all but those behind a list in the place of a record and those behind a kind of step
that is no word (`reports_unknownFields`).
-/

namespace Stepflow

open Validation

/-- A list of issues names a location. -/
def Reports (issues : List Issue) (l : Location) : Prop := ∃ i ∈ issues, i.location = l

section Reports

variable {α : Type} {as : List α} {f : α → List Issue} {issues others : List Issue} {l loc : Location}
  {known : List String} {o : Fields} {v : Value}

theorem reports_append : Reports (issues ++ others) l ↔ Reports issues l ∨ Reports others l := by
  simp only [Reports, List.mem_append, or_and_right, exists_or]

theorem reports_flatMap : Reports (as.flatMap f) l ↔ ∃ a ∈ as, Reports (f a) l := by
  simp only [Reports, List.mem_flatMap]
  constructor
  · rintro ⟨i, ⟨a, ha, hi⟩, hl⟩
    exact ⟨a, ha, i, hi, hl⟩
  · rintro ⟨a, ha, i, hi, hl⟩
    exact ⟨i, ⟨a, ha, hi⟩, hl⟩

theorem not_reports_nil : ¬Reports [] l := by
  rintro ⟨i, hi, -⟩
  contradiction

/-- The members of a list that the check looks at. -/
theorem mem_membersAt {at' : Location} {u : Value} : (at', u) ∈ membersAt loc (some v) ↔
    ∃ vs n, v = .arr vs ∧ vs[n]? = some u ∧ at' = loc.index n := by
  cases v with
  | arr vs =>
    simp only [membersAt, List.mem_map, Prod.exists, Prod.mk.injEq, Value.arr.injEq]
    constructor
    · rintro ⟨w, n, hw, rfl, rfl⟩
      exact ⟨vs, n, rfl, List.mem_zipIdx_iff_getElem?.1 hw, rfl⟩
    · rintro ⟨_, n, rfl, hu, rfl⟩
      exact ⟨u, n, List.mem_zipIdx_iff_getElem?.2 hu, rfl, rfl⟩
  | _ => simp [membersAt]

/-- What is reported of the members of a list. -/
theorem reports_list {inspect : Location × Value → List Issue} {P : Value → Location → Prop}
    (hinspect : ∀ loc u, u.depth < v.depth →
      (Reports (inspect (loc, u)) l ↔ ∃ rest, l = loc ++ rest ∧ P u rest)) :
    Reports ((membersAt loc (some v)).flatMap inspect) l ↔
      ∃ vs n u rest, v = .arr vs ∧ vs[n]? = some u ∧ P u rest ∧ l = loc ++ ([.index n] ++ rest) := by
  rw [reports_flatMap]
  constructor
  · rintro ⟨⟨_, u⟩, hmem, h⟩
    obtain ⟨vs, n, rfl, hu, rfl⟩ := mem_membersAt.1 hmem
    obtain ⟨rest, hl, hP⟩ := (hinspect _ u (Value.depth_lt_of_getElem? hu)).1 h
    exact ⟨vs, n, u, rest, rfl, hu, hP, hl.trans (List.append_assoc ..)⟩
  · rintro ⟨vs, n, u, rest, rfl, hu, hP, hl⟩
    exact ⟨(_, u), mem_membersAt.2 ⟨vs, n, rfl, hu, rfl⟩, (hinspect _ u (Value.depth_lt_of_getElem? hu)).2
      ⟨rest, hl.trans (List.append_assoc ..).symm, hP⟩⟩

end Reports

namespace RecordKind

/-! ## What the check knows -/

/-- The names that the check knows of a record. -/
def listed (o : Fields) : RecordKind → List String
  | .workflow => workflowFields
  | .input => inputFields
  | .step =>
    stepFields ++ payloadFields (StepType.ofWord? (((Table.get? o "type").bind Value.str?).getD ""))
  | .policy => policyFields
  | .option => optionFields

variable {K K₁ : RecordKind} {v v₁ : Value} {l loc rest : Location} {o : Fields} {name : String}
  {type : StepType} {room : Nat}

/-- The check knows the kind of a step if a word names it. -/
theorem ofWord?_eq_some_iff :
    StepType.ofWord? (((Table.get? o "type").bind Value.str?).getD "") = some type ↔
      Step.stepType? o = some type ∧ Step.namesKind o = true := by
  have hempty : StepType.ofWord? "" = none := by decide
  rw [Step.stepType?, Step.namesKind]
  cases Table.get? o "type" with
  | none => simp [hempty]
  | some t =>
    cases t with
    | str w => simp [Value.str?, Item.ofValue, Step.typeOf?]
    | _ => simp [Value.str?, hempty]

theorem mem_stepFields_iff : name ∈ stepFields ↔ name ∈ "type" :: Step.commonFields := by
  simp only [stepFields, Step.commonFields, List.mem_cons, List.not_mem_nil, or_false]
  tauto

/-- Where a word names the kind, the check knows the names that the step has. -/
theorem mem_listed_iff (h : K = .step → Step.namesKind o = true)
    (hread : (K.read? (.ofValue (.obj o))).isSome) : name ∈ K.listed o ↔ name ∈ K.names o := by
  cases K with
  | step =>
    obtain ⟨type, htype, -⟩ := (Step.readable hread).kind
    have hword := ofWord?_eq_some_iff.2 ⟨htype, h rfl⟩
    rw [listed, names, hword, htype, Option.map_some, Option.getD_some, List.mem_append, List.mem_append]
    rw [Step.payloadFields_eq, mem_stepFields_iff]
  | _ => exact Iff.rfl

/-- A field that is no member of a list stands in an object. -/
theorem part?_of_field {names : List String} {u : Value} {s : Segment}
    (h : v.part? names name = some (s, u)) (hs : s.isIndex = false) :
    ∃ o, v = .obj o ∧ s = .field name ∧ Table.get? o name = some u := by
  cases v with
  | obj o =>
    obtain ⟨w, hw, heq⟩ := Option.map_eq_some_iff.1 h
    obtain ⟨rfl, rfl⟩ := Prod.mk.inj heq
    exact ⟨o, rfl, rfl, hw⟩
  | arr vs =>
    obtain ⟨w, hw, heq⟩ := Option.map_eq_some_iff.1 h
    obtain ⟨rfl, rfl⟩ := Prod.mk.inj heq
    contradiction
  | _ => contradiction

/-- **A location that the check can name**: an unknown name of a record that is come to without going
behind a list or a kind that is no word. -/
def Finds (K : RecordKind) (v : Value) (l : Location) : Prop :=
  ∃ l₁ K₁ o name, Visits K v false l₁ K₁ (.obj o) ∧ name ∈ Table.names o ∧ name ∉ K₁.listed o ∧
    l = l₁ ++ [.field name]

/-- It is a name of the record itself, or one found at a record next to it. -/
theorem finds_iff : Finds K v l ↔
    (∃ o name, v = .obj o ∧ name ∈ Table.names o ∧ name ∉ K.listed o ∧ l = [.field name]) ∨
      ∃ l₁ K₁ v₁ rest, Child K v false l₁ K₁ v₁ ∧ Finds K₁ v₁ rest ∧ l = l₁ ++ rest := by
  constructor
  · rintro ⟨l₁, K₁, o, name, hvisits, hname, hlisted, rfl⟩
    generalize hb : false = b at hvisits
    cases hvisits with
    | here => exact .inl ⟨o, name, rfl, hname, hlisted, rfl⟩
    | @inside _ K' _ _ v' _ b₁ b₂ l' l'' hchild hrest =>
      obtain ⟨rfl, rfl⟩ := Bool.or_eq_false_iff.1 hb.symm
      exact .inr ⟨l', K', v', _, hchild, ⟨l'', K₁, o, name, hrest, hname, hlisted, rfl⟩,
        List.append_assoc ..⟩
  · rintro (⟨o, name, rfl, hname, hlisted, rfl⟩ | ⟨l₁, K₁, v₁, rest, hchild, hfinds, rfl⟩)
    · exact ⟨[], K, o, name, .here, hname, hlisted, rfl⟩
    · obtain ⟨l₂, K₂, o, name, hvisits, hname, hlisted, rfl⟩ := hfinds
      exact ⟨l₁ ++ l₂, K₂, o, name, .inside hchild hvisits, hname, hlisted,
        (List.append_assoc ..).symm⟩

/-- An unknown name of the record itself. -/
theorem Finds.own (hname : name ∈ Table.names o) (hlisted : name ∉ K.listed o) :
    Finds K (.obj o) [.field name] := finds_iff.2 (.inl ⟨o, name, rfl, hname, hlisted, rfl⟩)

/-- What is found at a record next to it. -/
theorem Finds.child (hchild : Child K v false l K₁ v₁) (hfinds : Finds K₁ v₁ rest) :
    Finds K v (l ++ rest) := finds_iff.2 (.inr ⟨l, K₁, v₁, rest, hchild, hfinds, rfl⟩)

/-! ## What the check reports -/

theorem reports_unknownKeys (loc : Location) (known : List String) (o : Fields) :
    Reports (unknownKeys loc known o) l ↔
      ∃ name, name ∈ Table.names o ∧ name ∉ known ∧ l = loc ++ [.field name] := by
  simp only [Reports, unknownKeys, List.mem_map, List.mem_filter]
  constructor
  · rintro ⟨_, ⟨name, ⟨hname, hknown⟩, rfl⟩, rfl⟩
    exact ⟨name, hname, by simpa using hknown, rfl⟩
  · rintro ⟨name, hname, hknown, rfl⟩
    exact ⟨_, ⟨name, ⟨hname, by simpa using hknown⟩, rfl⟩, rfl⟩

/-- The names of a step itself that are reported. -/
theorem reports_stepKeys (loc : Location) (o : Fields) (word : String) :
    Reports (((Table.names o).filter fun k => !stepFields.contains k &&
      !(payloadFields (StepType.ofWord? (((Table.get? o "type").bind Value.str?).getD ""))).contains k).map
        fun k => ⟨loc.field k, .unknownStepField k word⟩) l ↔
      ∃ name, name ∈ Table.names o ∧ name ∉ listed o .step ∧ l = loc ++ [.field name] := by
  simp only [Reports, List.mem_map, List.mem_filter, listed, List.mem_append, not_or]
  constructor
  · rintro ⟨_, ⟨name, ⟨hname, hknown⟩, rfl⟩, rfl⟩
    exact ⟨name, hname, by simpa using hknown, rfl⟩
  · rintro ⟨name, hname, hknown, rfl⟩
    exact ⟨_, ⟨name, ⟨hname, by simpa using hknown⟩, rfl⟩, rfl⟩

/-- Nothing is come to in the declaration of an input or in a retry policy. -/
theorem finds_leaf_iff (hleaf : ∀ b l₁ K₁ v₁, ¬Child K v b l₁ K₁ v₁) : Finds K v l ↔
    ∃ o name, v = .obj o ∧ name ∈ Table.names o ∧ name ∉ K.listed o ∧ l = [.field name] := by
  rw [finds_iff, or_iff_left]
  rintro ⟨l₁, K₁, v₁, rest, hchild, -⟩
  exact hleaf _ _ _ _ hchild

/-- **The retry policy of a step** is looked through. -/
theorem reports_policy (loc : Location) (o : Fields) :
    Reports (match Table.get? o "retry_policy" with
      | some (.obj p) => unknownKeys (loc.field "retry_policy") policyFields p
      | _ => []) l ↔
      ∃ v rest, Table.get? o "retry_policy" = some v ∧ v ≠ .null ∧ Finds .policy v rest ∧
        l = loc ++ ([.field "retry_policy"] ++ rest) := by
  have hleaf {v : Value} : ∀ b l₁ K₁ v₁, ¬Child .policy v b l₁ K₁ v₁ := fun _ _ _ _ => nofun
  constructor
  · intro h
    split at h
    · next p hp =>
      obtain ⟨name, hname, hknown, rfl⟩ := (reports_unknownKeys ..).1 h
      exact ⟨.obj p, _, hp, nofun, (finds_leaf_iff hleaf).2 ⟨p, name, rfl, hname, hknown, rfl⟩,
        List.append_assoc ..⟩
    · exact absurd h not_reports_nil
  · rintro ⟨v, rest, hv, -, hfinds, rfl⟩
    obtain ⟨p, name, rfl, hname, hknown, rfl⟩ := (finds_leaf_iff hleaf).1 hfinds
    rw [hv]
    exact (reports_unknownKeys ..).2 ⟨name, hname, hknown, (List.append_assoc ..).symm⟩

/-- Nothing is found in what is no object. -/
theorem not_finds_step (h : ∀ o, v ≠ .obj o) (hfinds : Finds .step v l) : False := by
  obtain ⟨o, -, ho, -⟩ | ⟨_, _, _, _, hchild, -⟩ := finds_iff.1 hfinds
  · exact h o ho
  · generalize false = b at hchild
    cases hchild <;> exact h _ rfl

theorem Finds.ne_null (h : Finds .step v l) : v ≠ .null := by
  rintro rfl
  exact not_finds_step (fun _ => Value.noConfusion) h

/-- **The members of a list in a field** of a step are looked through. -/
theorem reports_members {inspect : Location × Value → List Issue} {K₁ : RecordKind} {o : Fields}
    (hinspect : ∀ loc u, u.depth ≤ room →
      (Reports (inspect (loc, u)) l ↔ ∃ rest, l = loc ++ rest ∧ Finds K₁ u rest))
    (loc : Location) (hroom : (Value.obj o).depth ≤ room + 1) (name : String) :
    Reports ((membersAt (loc.field name) (Table.get? o name)).flatMap inspect) l ↔
      ∃ vs n u rest, Table.get? o name = some (.arr vs) ∧ vs[n]? = some u ∧ Finds K₁ u rest ∧
        l = loc ++ ([.field name, .index n] ++ rest) := by
  cases hv : Table.get? o name with
  | none => exact iff_of_false not_reports_nil (by rintro ⟨_, _, _, _, hnone, -⟩; contradiction)
  | some v =>
    have hinside (place : Location) (u : Value) (hu : u.depth < v.depth) :=
      hinspect place u (by have := Value.depth_lt_of_get? hv; omega)
    refine (reports_list hinside).trans ⟨?_, ?_⟩
    · rintro ⟨vs, n, u, rest, rfl, hu, hfinds, rfl⟩
      exact ⟨vs, n, u, rest, rfl, hu, hfinds, List.append_assoc ..⟩
    · rintro ⟨vs, n, u, rest, hvs, hu, hfinds, rfl⟩
      exact ⟨vs, n, u, rest, Option.some.inj hvs, hu, hfinds,
        (List.append_assoc loc [.field name] _).symm⟩

section Levels

variable (check : ∀ (loc : Location) (v : Value), v.depth ≤ room →
  (Reports (unknownInStep room loc v) l ↔ ∃ rest, l = loc ++ rest ∧ Finds .step v rest))

include check

/-- **A step in a field of a step** is looked through. -/
theorem reports_field (loc : Location) {o : Fields} (hroom : (Value.obj o).depth ≤ room + 1)
    (name : String) :
    Reports (match Table.get? o name with
      | some v => unknownInStep room (loc.field name) v
      | none => []) l ↔
      ∃ v rest, Table.get? o name = some v ∧ v ≠ .null ∧ Finds .step v rest ∧
        l = loc ++ ([.field name] ++ rest) := by
  cases hv : Table.get? o name with
  | none => exact iff_of_false not_reports_nil (by rintro ⟨v, _, hnone, -⟩; contradiction)
  | some v =>
    have hdepth : v.depth ≤ room := by
      have := Value.depth_lt_of_get? hv
      omega
    rw [check _ v hdepth]
    constructor
    · rintro ⟨rest, rfl, hfinds⟩
      exact ⟨v, rest, rfl, hfinds.ne_null, hfinds, List.append_assoc ..⟩
    · rintro ⟨u, rest, hu, -, hfinds, rfl⟩
      obtain rfl := Option.some.inj hu
      exact ⟨rest, (List.append_assoc ..).symm, hfinds⟩

/-- **An option that is an object** is looked through, with the step in it. -/
theorem reports_option (loc : Location) {v : Value} : v.depth ≤ room + 1 →
    (Reports (match v with
      | .obj fields =>
        unknownKeys loc optionFields fields ++
          match Table.get? fields "step" with
          | some u => unknownInStep room (loc.field "step") u
          | none => []
      | _ => []) l ↔ ∃ rest, l = loc ++ rest ∧ Finds .option v rest) := by
  intro hroom
  constructor
  · intro h
    cases v with
    | obj o =>
      obtain h | h := reports_append.1 h
      · obtain ⟨name, hname, hknown, rfl⟩ := (reports_unknownKeys ..).1 h
        exact ⟨_, rfl, .own hname hknown⟩
      · obtain ⟨u, rest, hu, -, hfinds, rfl⟩ := (reports_field check loc hroom "step").1 h
        exact ⟨_, rfl, .child (.chosen (Value.part?_obj hu)) hfinds⟩
    | _ => exact absurd h not_reports_nil
  · rintro ⟨rest, rfl, hfinds⟩
    obtain ⟨o, name, rfl, hname, hknown, rfl⟩ | ⟨l₁, K₁, u, rest, hchild, hstep, rfl⟩ :=
      finds_iff.1 hfinds
    · exact reports_append.2 (.inl ((reports_unknownKeys ..).2 ⟨name, hname, hknown, rfl⟩))
    · generalize hb : false = b at hchild
      cases hchild with
      | chosen hu =>
        obtain ⟨o, rfl, rfl, hget⟩ := part?_of_field hu hb.symm
        exact reports_append.2 (.inr ((reports_field check loc hroom "step").2
          ⟨u, rest, hget, hstep.ne_null, hstep, rfl⟩))

/-- What is reported of a step is found there. -/
theorem finds_of_reports (loc : Location) {o : Fields} (hroom : (Value.obj o).depth ≤ room + 1)
    (h : Reports (unknownInStep (room + 1) loc (.obj o)) l) :
    ∃ rest, l = loc ++ rest ∧ Finds .step (.obj o) rest := by
  -- behind a word, nothing is flagged
  have flag {type : StepType} (hword : StepType.ofWord?
      (((Table.get? o "type").bind Value.str?).getD "") = some type) :
      Step.stepType? o = some type ∧ (!Step.namesKind o) = false := by
    obtain ⟨htype, hnames⟩ := ofWord?_eq_some_iff.1 hword
    exact ⟨htype, by rw [hnames]; rfl⟩
  unfold unknownInStep at h
  dsimp only at h
  obtain h | h := reports_append.1 h
  · obtain h | h := reports_append.1 h
    · obtain h | h := reports_append.1 h
      · obtain ⟨name, hname, hknown, rfl⟩ := (reports_stepKeys ..).1 h
        exact ⟨_, rfl, .own hname hknown⟩
      · obtain ⟨v, rest, hv, hne, hfinds, rfl⟩ := (reports_policy ..).1 h
        exact ⟨_, rfl, .child (.policy hv hne) hfinds⟩
    · obtain ⟨v, rest, hv, hne, hfinds, rfl⟩ := (reports_field check loc hroom "on_error").1 h
      exact ⟨_, rfl, .child (.onError hv hne) hfinds⟩
  · split at h
    · next hword =>
      obtain ⟨htype, hflag⟩ := flag hword
      obtain ⟨v, rest, hv, hne, hfinds, rfl⟩ := (reports_field check loc hroom "on_failure").1 h
      exact ⟨_, rfl, .child (hflag ▸ .onFailure htype hv hne) hfinds⟩
    · next hword =>
      obtain ⟨htype, hflag⟩ := flag hword
      obtain ⟨vs, n, u, rest, hvs, hu, hfinds, rfl⟩ :=
        (reports_members (fun loc u h => reports_option check loc (Nat.le_succ_of_le h)) loc hroom
          "options").1 h
      exact ⟨_, rfl, .child (hflag ▸ .option htype hvs hu) hfinds⟩
    · next hword =>
      obtain ⟨htype, hflag⟩ := flag hword
      obtain ⟨vs, n, u, rest, hvs, hu, hfinds, rfl⟩ := (reports_members check loc hroom "steps").1 h
      exact ⟨_, rfl, .child (hflag ▸ .member htype hvs hu) hfinds⟩
    · exact absurd h not_reports_nil

/-- What is found at a step is reported there. -/
theorem reports_of_finds (loc : Location) {o : Fields} (hroom : (Value.obj o).depth ≤ room + 1)
    (h : ∃ rest, l = loc ++ rest ∧ Finds .step (.obj o) rest) :
    Reports (unknownInStep (room + 1) loc (.obj o)) l := by
  -- what is not flagged stands behind a word
  have word {type : StepType} (htype : Step.stepType? o = some type)
      (hflag : false = !Step.namesKind o) :
      StepType.ofWord? (((Table.get? o "type").bind Value.str?).getD "") = some type :=
    ofWord?_eq_some_iff.2 ⟨htype, by simpa using hflag⟩
  obtain ⟨rest, rfl, h⟩ := h
  unfold unknownInStep
  dsimp only
  simp only [reports_append]
  obtain ⟨_, name, ho, hname, hknown, rfl⟩ | ⟨l₁, K₁, u, rest, hchild, hfinds, rfl⟩ := finds_iff.1 h
  · obtain rfl := Value.obj.inj ho
    exact .inl (.inl (.inl ((reports_stepKeys ..).2 ⟨name, hname, hknown, rfl⟩)))
  · generalize hflag : false = b at hchild
    cases hchild with
    | policy hv hne =>
      exact .inl (.inl (.inr ((reports_policy ..).2 ⟨u, rest, hv, hne, hfinds, rfl⟩)))
    | onError hv hne =>
      exact .inl (.inr ((reports_field check loc hroom "on_error").2 ⟨u, rest, hv, hne, hfinds, rfl⟩))
    | onFailure htype hv hne =>
      rw [word htype hflag]
      exact .inr ((reports_field check loc hroom "on_failure").2 ⟨u, rest, hv, hne, hfinds, rfl⟩)
    | option htype hvs hu =>
      rw [word htype hflag]
      exact .inr ((reports_members (fun loc u h => reports_option check loc (Nat.le_succ_of_le h)) loc
        hroom "options").2 ⟨_, _, u, rest, hvs, hu, hfinds, rfl⟩)
    | member htype hvs hu =>
      rw [word htype hflag]
      exact .inr ((reports_members check loc hroom "steps").2 ⟨_, _, u, rest, hvs, hu, hfinds, rfl⟩)

end Levels

/-- **A step** is looked through, with the steps inside it. -/
theorem reports_unknownInStep (loc : Location) (v : Value) (hroom : v.depth ≤ room) :
    Reports (unknownInStep room loc v) l ↔ ∃ rest, l = loc ++ rest ∧ Finds .step v rest := by
  induction room generalizing loc v with
  | zero =>
    refine iff_of_false not_reports_nil ?_
    rintro ⟨rest, -, hfinds⟩
    exact not_finds_step (fun o ho => by subst ho; simp [Value.depth] at hroom) hfinds
  | succ room ih =>
    cases v with
    | obj o => exact ⟨finds_of_reports ih loc hroom, reports_of_finds ih loc hroom⟩
    | _ => exact iff_of_false not_reports_nil fun ⟨_, _, hfinds⟩ =>
      not_finds_step (fun _ => Value.noConfusion) hfinds

/-- **The declarations of inputs** are looked through. -/
theorem reports_unknownInInputs {inputs : Fields} (hsorted : Table.Sorted inputs) :
    Reports (unknownInInputs (some (.obj inputs))) l ↔ ∃ name v rest,
      Table.get? inputs name = some v ∧ Finds .input v rest ∧
        l = [.field "inputs", .field name] ++ rest := by
  have hleaf {v : Value} : ∀ b l₁ K₁ v₁, ¬Child .input v b l₁ K₁ v₁ := fun _ _ _ _ => nofun
  unfold unknownInInputs
  rw [reports_flatMap]
  constructor
  · rintro ⟨⟨name, v⟩, hmem, h⟩
    dsimp only at h
    split at h
    · next d =>
      obtain ⟨key, hkey, hknown, rfl⟩ := (reports_unknownKeys ..).1 h
      exact ⟨name, .obj d, _, (Table.get?_eq_some_iff hsorted).2 hmem,
        (finds_leaf_iff hleaf).2 ⟨d, key, rfl, hkey, hknown, rfl⟩, rfl⟩
    · exact absurd h not_reports_nil
  · rintro ⟨name, v, rest, hv, hfinds, rfl⟩
    obtain ⟨d, key, rfl, hkey, hknown, rfl⟩ := (finds_leaf_iff hleaf).1 hfinds
    exact ⟨(name, .obj d), Table.mem_of_get? hv, (reports_unknownKeys ..).2 ⟨key, hkey, hknown, rfl⟩⟩

/-- A workflow in a list holds nothing that can be found. -/
theorem not_finds_workflow {d : Value} (h : ∀ o, d ≠ .obj o) (hfinds : Finds .workflow d l) : False := by
  obtain ⟨o, -, ho, -⟩ | ⟨_, _, _, _, hchild, -⟩ := finds_iff.1 hfinds
  · exact h o ho
  · generalize hflag : false = b at hchild
    cases hchild with
    | input hpart _ | step hpart _ =>
      obtain ⟨o, ho, -⟩ := part?_of_field hpart hflag.symm
      exact h o ho

/-- **What is reported of a document** are the unknown names of the records that are come to without going
behind a list or a kind that is no word. -/
theorem reports_unknownFields {d : Value} (hordered : d.Throughout Value.Ordered) :
    Reports (unknownFields d).issues l ↔ Finds .workflow d l := by
  cases d with
  | obj o =>
    rw [Value.Throughout, Value.throughoutFields_iff] at hordered
    have hinputs {inputs : Fields} (h : Table.get? o "inputs" = some (.obj inputs)) :
        Table.Sorted inputs := by
      have hinside := hordered.2 _ (Table.mem_of_get? h)
      rw [Value.Throughout] at hinside
      exact hinside.1
    have hsteps : Reports ((membersAt [.field "steps"] (Table.get? o "steps")).flatMap fun p =>
        unknownInStep (Value.obj o).depth p.1 p.2) l ↔ _ :=
      reports_members (fun loc v h => reports_unknownInStep loc v h) [] (Nat.le_succ _) "steps"
    unfold unknownFields
    simp only [reports_append]
    constructor
    · rintro ((h | h) | h)
      · obtain ⟨name, hname, hknown, rfl⟩ := (reports_unknownKeys ..).1 h
        exact .own hname hknown
      · cases hget : Table.get? o "inputs" with
        | none => exact absurd (hget ▸ h) not_reports_nil
        | some v =>
          rw [hget] at h
          cases v with
          | obj inputs =>
            obtain ⟨name, v, rest, hv, hfinds, rfl⟩ := (reports_unknownInInputs (hinputs hget)).1 h
            exact .child (.input (Value.part?_obj hget) hv) hfinds
          | _ => exact absurd h not_reports_nil
      · obtain ⟨vs, n, v, rest, hvs, hv, hfinds, rfl⟩ := hsteps.1 h
        rw [List.nil_append]
        exact .child (.step (Value.part?_obj hvs) hv) hfinds
    · intro h
      obtain ⟨_, name, ho, hname, hknown, rfl⟩ | ⟨l₁, K₁, v, rest, hchild, hfinds, rfl⟩ := finds_iff.1 h
      · obtain rfl := Value.obj.inj ho
        exact .inl (.inl ((reports_unknownKeys ..).2 ⟨name, hname, hknown, rfl⟩))
      · generalize hflag : false = b at hchild
        cases hchild with
        | input hfield hv =>
          obtain ⟨_, ho, rfl, hget⟩ := part?_of_field hfield hflag.symm
          obtain rfl := Value.obj.inj ho
          rw [hget]
          exact .inl (.inr ((reports_unknownInInputs (hinputs hget)).2 ⟨_, v, rest, hv, hfinds, rfl⟩))
        | step hfield hv =>
          obtain ⟨_, ho, rfl, hget⟩ := part?_of_field hfield hflag.symm
          obtain rfl := Value.obj.inj ho
          exact .inr (hsteps.2 ⟨_, _, v, rest, hget, hv, hfinds, rfl⟩)
  | _ => exact iff_of_false not_reports_nil (not_finds_workflow fun _ => Value.noConfusion)

end RecordKind

end Stepflow
