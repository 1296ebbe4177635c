import Stepflow.Proofs.Validation.Unknown

/-!
# Which fields are reported as unknown

A field that reading a document passes over should be reported, and no other. The check for unknown fields
takes its own way through the document. It takes a kind of step for a word and every record for an
object, where the reader also takes a kind by its number and a record from the list of its fields. So its
report is exact where every step that it comes to names its kind by a word, and nothing is passed over
behind such lists and numbers (`unknownFields_exact_iff`).
-/

namespace Stepflow

open Validation RecordKind Item

/-- An issue that names an unknown field, at the place of the field. -/
def Issue.NamesField (i : Issue) : Prop :=
  ∃ l name, i.location = l ++ [.field name] ∧
    (i.problem = .unknownField name ∨ ∃ word, i.problem = .unknownStepField name word)

/-- **The report on a document is exact**: a name is reported at a place if and only if one of the records
of a workflow is read from an object there, and reading it passes the name over. -/
structure ReportsExactly (d : Value) : Prop where
  /-- Every issue names the field at whose place it is. -/
  named : ∀ i ∈ (unknownFields d).issues, i.NamesField
  /-- The fields are those that are passed over. -/
  places : ∀ l name, Reports (unknownFields d).issues (l ++ [.field name]) ↔
    ∃ b K o, Visits .workflow d b l K (.obj o) ∧ name ∈ Table.names o ∧ K.PassesOver o name

/-! ## What the issues say -/

section Named

variable {i : Issue} {loc : Location} {known : List String} {o : Fields} {room : Nat} {v : Value}

theorem namesField_of_unknownKeys (h : i ∈ unknownKeys loc known o) : i.NamesField := by
  obtain ⟨name, -, rfl⟩ := List.mem_map.1 h
  exact ⟨loc, name, rfl, .inl rfl⟩

theorem namesField_of_unknownInInputs {v : Option Value} (h : i ∈ unknownInInputs v) :
    i.NamesField := by
  unfold unknownInInputs at h
  split at h
  · obtain ⟨⟨name, v⟩, -, h⟩ := List.mem_flatMap.1 h
    dsimp only at h
    split at h
    · exact namesField_of_unknownKeys h
    · contradiction
  · contradiction

/-- What is reported of the step in a field is reported of a step. -/
theorem exists_mem_of_field {name : String} (h : i ∈ match Table.get? o name with
    | some v => unknownInStep room loc v
    | none => []) : ∃ v, i ∈ unknownInStep room loc v := by
  split at h
  · exact ⟨_, h⟩
  · contradiction

theorem namesField_of_unknownInStep (h : i ∈ unknownInStep room loc v) : i.NamesField := by
  induction room generalizing loc v with
  | zero => contradiction
  | succ room ih =>
    cases v with
    | obj o =>
      unfold unknownInStep at h
      simp only [List.mem_append] at h
      obtain ((h | h) | h) | h := h
      · obtain ⟨name, -, rfl⟩ := List.mem_map.1 h
        exact ⟨loc, name, rfl, .inr ⟨_, rfl⟩⟩
      · split at h
        · exact namesField_of_unknownKeys h
        · contradiction
      · obtain ⟨u, hu⟩ := exists_mem_of_field h
        exact ih hu
      · split at h
        · obtain ⟨u, hu⟩ := exists_mem_of_field h
          exact ih hu
        · obtain ⟨⟨place, u⟩, -, h⟩ := List.mem_flatMap.1 h
          dsimp only at h
          split at h
          · obtain h | h := List.mem_append.1 h
            · exact namesField_of_unknownKeys h
            · obtain ⟨s, hs⟩ := exists_mem_of_field h
              exact ih hs
          · contradiction
        · obtain ⟨⟨place, u⟩, -, h⟩ := List.mem_flatMap.1 h
          exact ih h
        · contradiction
    | _ => contradiction

/-- **Every issue** names the field at whose place it is. -/
theorem namesField_of_unknownFields {d : Value} (h : i ∈ (unknownFields d).issues) : i.NamesField := by
  unfold unknownFields at h
  split at h
  · simp only [List.mem_append] at h
    obtain (h | h) | h := h
    · exact namesField_of_unknownKeys h
    · exact namesField_of_unknownInInputs h
    · obtain ⟨⟨place, v⟩, -, h⟩ := List.mem_flatMap.1 h
      exact namesField_of_unknownInStep h
  · contradiction

end Named

/-! ## Where the report is exact -/

section Exact

variable {d : Value} (hordered : d.Throughout Value.Ordered)
  (hread : (RecordKind.workflow.read? (ofValue d)).isSome)

include hordered hread

/-- Where the report is exact, a step that the check comes to names its kind by a word: otherwise the field
that its kind needs is reported. -/
theorem namesKind_of_exact (h : ReportsExactly d) {l : Location} {o : Fields}
    (hvisits : Visits .workflow d false l .step (.obj o)) : Step.namesKind o = true := by
  by_contra hnames
  have hstep := hvisits.read hread
  obtain ⟨type, htype, -, name, hname, hpresent⟩ := (Step.readable hstep).kind
  have hword : StepType.ofWord? (((Table.get? o "type").bind Value.str?).getD "") = none :=
    Option.eq_none_iff_forall_ne_some.2 fun _ hsome => hnames (ofWord?_eq_some_iff.1 hsome).2
  have hunlisted : name ∉ RecordKind.step.listed o := by
    obtain ⟨hcommon, hne⟩ := Step.payloadNames_apart hname
    rw [listed, hword, payloadFields, List.append_nil, mem_stepFields_iff]
    exact List.not_mem_cons_of_ne_of_not_mem hne hcommon
  obtain ⟨b, K, o', hvisits', hpresent', hpass⟩ := (h.places l name).1
    ((reports_unknownFields hordered).2 ⟨l, _, o, name, hvisits, hpresent, hunlisted, rfl⟩)
  obtain ⟨-, rfl, ho⟩ := hvisits.determined hvisits'
  obtain rfl := Value.obj.inj ho
  have hhas : name ∈ RecordKind.step.names o := by
    rw [RecordKind.names, htype]
    exact List.mem_append_right _ hname
  exact not_passesOver_of_mem hstep hpresent hhas hpass

/-- **Where the report is exact**: where every step that the check comes to names its kind by a word, and
nothing is passed over behind a list in the place of a record, or a kind that is no word. -/
theorem unknownFields_exact_iff : ReportsExactly d ↔
    (∀ l o, Visits .workflow d false l .step (.obj o) → Step.namesKind o = true) ∧
      ∀ l K o name, Visits .workflow d true l K (.obj o) → name ∈ Table.names o →
        ¬K.PassesOver o name := by
  constructor
  · intro h
    refine ⟨fun l o hvisits => namesKind_of_exact hordered hread h hvisits,
      fun l K o name hvisits hname hpass => ?_⟩
    obtain ⟨l', K', o', name', hvisits', -, -, heq⟩ :=
      (reports_unknownFields hordered).1 ((h.places l name).2 ⟨_, K, o, hvisits, hname, hpass⟩)
    obtain ⟨rfl, -⟩ := List.append_inj' heq rfl
    obtain ⟨hflag, -⟩ := hvisits.determined hvisits'
    contradiction
  · rintro ⟨hwords, hcovered⟩
    refine ⟨fun i => namesField_of_unknownFields, fun l name => ?_⟩
    have hlisted {K : RecordKind} {o : Fields} (hvisits : Visits .workflow d false l K (.obj o)) :
        name ∈ K.listed o ↔ name ∈ K.names o :=
      mem_listed_iff (fun hK => hwords l o (hK ▸ hvisits)) (hvisits.read hread)
    rw [reports_unknownFields hordered]
    constructor
    · rintro ⟨l', K, o, name', hvisits, hname, hunlisted, heq⟩
      obtain ⟨rfl, hlast⟩ := List.append_inj' heq rfl
      obtain rfl := Segment.field.inj (List.singleton_inj.1 hlast)
      exact ⟨false, K, o, hvisits, hname, passesOver_of_not_mem (mt (hlisted hvisits).2 hunlisted)⟩
    · rintro ⟨b, K, o, hvisits, hname, hpass⟩
      cases b with
      | true => exact absurd hpass (hcovered l K o name hvisits hname)
      | false =>
        refine ⟨l, K, o, name, hvisits, hname, fun hmem => ?_, rfl⟩
        exact not_passesOver_of_mem (hvisits.read hread) hname ((hlisted hvisits).1 hmem) hpass

end Exact

/-- A step with a misspelt field. -/
def misspeltStep : Fields :=
  [("action", .str "make"), ("name", .str "build"), ("rolback", .str "undo"), ("type", .str "python")]

/-- A workflow of that step. -/
def misspelt : Value :=
  .obj [("name", .str "wf"), ("steps", .arr [.obj misspeltStep]), ("version", .str "1.0")]

/-- The same step in a branch, whose only option is the list of its fields. -/
def misspeltInList : Value :=
  .obj [
    ("inputs", .obj [("go", .obj [("required", .bool true), ("type", .str "boolean")])]),
    ("name", .str "wf"),
    ("steps", .arr [.obj [
      ("name", .str "choose"),
      ("options", .arr [.arr [.str "$\x7b\x7b inputs.go \x7d\x7d", .obj misspeltStep]]),
      ("type", .str "branch")]]),
    ("version", .str "1.0")]

/-- Nothing is come to inside the step. -/
theorem visits_misspeltStep {b : Bool} {l : Location} {K : RecordKind} {v : Value}
    (h : Visits .step (.obj misspeltStep) b l K v) : b = false ∧ K = .step ∧ v = .obj misspeltStep := by
  cases h with
  | here => exact ⟨rfl, rfl, rfl⟩
  | inside hchild _ =>
    cases hchild with
    | policy hv _ | onError hv _ | onFailure _ hv _ | option _ hv _ | member _ hv _ => contradiction

/-- The check comes to all that reading the workflow comes to. -/
theorem visits_misspelt {b : Bool} {l : Location} {K : RecordKind} {v : Value}
    (h : Visits .workflow misspelt b l K v) :
    b = false ∧ (K = .step → v = .obj misspeltStep) := by
  cases h with
  | here => exact ⟨rfl, nofun⟩
  | inside hchild hrest =>
    cases hchild with
    | input hinputs _ => contradiction
    | @step _ _ s vs n hsteps hv =>
      obtain ⟨rfl, hitems⟩ := Prod.mk.inj (Option.some.inj hsteps)
      obtain rfl := Value.arr.inj hitems
      obtain rfl := List.mem_singleton.1 (List.mem_of_getElem? hv)
      obtain ⟨rfl, -, hstep⟩ := visits_misspeltStep hrest
      exact ⟨rfl, fun _ => hstep⟩

theorem unknownFields_exact_iff_misspelt : misspelt.Throughout Value.Ordered ∧
    (RecordKind.workflow.read? (ofValue misspelt)).isSome ∧ ReportsExactly misspelt := by
  have hordered : misspelt.Throughout Value.Ordered := by
    simp only [misspelt, misspeltStep, Value.Throughout, Value.ThroughoutAll, Value.ThroughoutFields,
      Value.Ordered, Table.Sorted, and_true, true_and]
    decide
  have hread : (RecordKind.workflow.read? (ofValue misspelt)).isSome := by decide
  refine ⟨hordered, hread, (unknownFields_exact_iff hordered hread).2 ⟨fun l o hvisits => ?_,
    fun l K o name hvisits => ?_⟩⟩
  · obtain rfl := Value.obj.inj ((visits_misspelt hvisits).2 rfl)
    decide
  · obtain ⟨hflag, -⟩ := visits_misspelt hvisits
    contradiction

/-- **The report is not always exact**: behind a list in the place of an option, nothing is reported. -/
theorem not_unknownFields_exact : ¬ ∀ d : Value, d.Throughout Value.Ordered →
    (RecordKind.workflow.read? (ofValue d)).isSome → ReportsExactly d := by
  intro h
  have hordered : misspeltInList.Throughout Value.Ordered := by
    simp only [misspeltInList, misspeltStep, Value.Throughout, Value.ThroughoutAll, Value.ThroughoutFields,
      Value.Ordered, Table.Sorted, and_true, true_and]
    decide
  have hexact := h misspeltInList hordered (by decide)
  have hvisits : Visits .workflow misspeltInList true
      [.field "steps", .index 0, .field "options", .index 0, .index 1] .step (.obj misspeltStep) :=
    Visits.inside (Child.step (n := 0) (s := .field "steps") rfl rfl)
      (Visits.inside (Child.option (n := 0) rfl rfl rfl)
        (Visits.inside (Child.chosen (s := .index 1) rfl) .here))
  have hpass : RecordKind.step.PassesOver misspeltStep "rolback" := passesOver_of_not_mem (by decide)
  obtain ⟨i, hi, -⟩ := (hexact.places _ "rolback").2 ⟨_, _, _, hvisits, by decide, hpass⟩
  have hnone : (unknownFields misspeltInList).issues = [] := by decide
  rw [hnone] at hi
  contradiction

end Stepflow
