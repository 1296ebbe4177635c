import Stepflow.Proofs.Json.Reading
import Stepflow.Proofs.Validation.Written
import Stepflow.Proofs.Yaml.Linking
import Stepflow.Workflow.File

/-!
# Written documents read back

A workflow that is supported and valid is loaded from its own JSON text and from its own YAML text,
and no field of the text is unknown. The two texts are told apart by their first character. What comes
between a text and the workflow is an item that writes the object of the workflow, and from there both
go the same way.
-/

namespace Stepflow

open Yaml

theorem InputDeclaration.covers_toValue (d : InputDeclaration) : Reach.Covers (.only [("type", .all),
    ("required", .all), ("default", .all), ("description", .all)]) d.toValue := by
  have hfields : d.toValue = .obj d.fields := rfl
  rw [hfields, Reach.Covers, Reach.coversFields_iff]
  refine ⟨by simp, fun e he => ?_⟩
  have hname := d.fields_among.mem he
  simp only [Validation.inputFields, List.mem_cons, List.not_mem_nil, or_false] at hname
  rcases hname with h | h | h | h <;> rw [h] <;> exact Reach.all_covers e.2

namespace Workflow

/-- The reader of workflows looks at all of the object of a workflow. -/
theorem reach_covers (w : Workflow) : reach.Covers w.toValue := by
  have hall : ∀ {r : Reach} {v : Value}, r = .all → r.Covers v := fun h => h ▸ Reach.all_covers _
  rw [toValue_eq, Reach.Covers, Reach.coversFields_iff]
  refine ⟨by simp [reach], ?_⟩
  simp only [fields, List.forall_mem_append, List.forall_mem_cons, List.not_mem_nil, false_implies,
    implies_true, and_true]
  refine ⟨⟨⟨⟨hall rfl, hall rfl⟩, ?description⟩, ?inputs⟩, hall rfl⟩
  case description => exact forall_mem_fieldUnless.2 fun _ => hall rfl
  case inputs =>
    refine forall_mem_fieldUnless.2 fun _ => ?_
    rw [Reach.Covers, Reach.coversFields_iff, List.forall_mem_map]
    exact ⟨by simp [reach, Reach.into, Item.text?], fun e _ => e.2.covers_toValue⟩

/-- The object of a valid workflow has no number that texts cannot hold. -/
theorem toValue_bounded_of_valid {w : Workflow} (hp : w.Proper) (hvalid : w.check.isValid) :
    w.toValue.Throughout Value.Bounded :=
  toValue_bounded hp fun _ hs _ hpolicy => backoff_of_valid hvalid hs hpolicy

/-- The version stands first in the object of a workflow. -/
theorem exists_fields_eq (w : Workflow) : ∃ rest, w.fields = ("version", .str w.version) :: rest :=
  ⟨_, rfl⟩

/-- The YAML text of a workflow lists its fields. -/
theorem toList_yaml (w : Workflow) : w.yaml.toList = entries 0 w.fields := by
  obtain ⟨rest, hfields⟩ := w.exists_fields_eq
  rw [yaml, toValue_eq, hfields, Value.yaml, String.toList_ofList]

end Workflow

namespace Document

theorem isJson_json (w : Workflow) : isJson w.json.toList = true := by
  obtain ⟨rest, hfields⟩ := w.exists_fields_eq
  have htext : ∃ cs, w.json.toList = '\x7b' :: cs := by
    rw [Workflow.json, Workflow.toValue_eq, hfields, Value.pretty, Value.prettyAt]
    simp only [String.toList_append]
    exact ⟨_, rfl⟩
  obtain ⟨cs, htext⟩ := htext
  rw [htext]
  rfl

theorem isJson_yaml (w : Workflow) : isJson w.yaml.toList = false := by
  obtain ⟨rest, hfields⟩ := w.exists_fields_eq
  have hkey : announced 0 "version" = "version:".toList := by decide
  have htext : ∃ cs, w.yaml.toList = 'v' :: cs := by
    rw [w.toList_yaml, hfields]
    cases rest <;> simp only [entries, hkey] <;> exact ⟨_, rfl⟩
  obtain ⟨cs, htext⟩ := htext
  rw [htext]
  rfl

section Loading

variable {w : Workflow} {text : String}

/-- **A document that writes a valid workflow**, for every reader that looks at all of it, holds that
workflow and no unknown field. -/
theorem decode?_of_writes (hp : w.Proper) (hvalid : w.check.isValid)
    (h : ∀ r : Reach, r.Covers w.toValue → ∃ i, item? r text = some i ∧ i.Writes w.toValue) :
    decode? text = some (w, {}) := by
  -- the text is read twice: as a workflow, and as a value in which unknown fields are looked for
  have hworkflow : workflow? text = some w := by
    obtain ⟨i, hi, hw⟩ := h _ w.reach_covers
    rw [workflow?, hi, Option.bind_some]
    exact Workflow.ofItem?_of_writes hp (fun _ he _ hv => Workflow.default_of_valid hvalid he hv) hw
  have hvalue : value? text = some w.toValue.inOrder := by
    obtain ⟨i, hi, hw⟩ := h .all (Reach.all_covers _)
    rw [value?, hi, Option.bind_some]
    exact hw.value? (Workflow.toValue_bounded_of_valid hp hvalid)
  simp only [decode?, hworkflow, hvalue, Option.bind_eq_bind, Option.bind_some,
    Workflow.unknownFields_written]

/-- A supported and valid workflow is loaded from a document that holds it. -/
theorem loadUnresolved_of_decode? (hversion : Workflow.versionSupported? w.version = some true)
    (hvalid : w.check.isValid) (h : decode? text = some (w, {})) : loadUnresolved text = .ok w := by
  have hreport : ({} ++ w.check : Report).isValid = true := hvalid
  simp only [loadUnresolved, h, hversion, hreport]
  simp

theorem item?_json (hp : w.Proper) (hvalid : w.check.isValid)
    (hdepth : w.toValue.depth ≤ Json.maxDepth) (hl : w.toValue.Throughout Json.Legible) (r : Reach) :
    ∃ i, item? r w.json = some i ∧ i.Writes w.toValue := by
  have hb := Workflow.toValue_bounded_of_valid hp hvalid
  refine ⟨_, ?_, Json.writes_ofJson _ _ hdepth⟩
  simp only [item?, isJson_json, if_true]
  rw [Workflow.json, Json.read?_pretty hb hl, Option.map_some]

theorem item?_yaml (hdepth : w.toValue.depth ≤ maxDepth) (h : Spelled w.yaml.toList w.toValue)
    {r : Reach} (hr : r.Covers w.toValue) : ∃ i, item? r w.yaml = some i ∧ i.Writes w.toValue := by
  obtain ⟨i, hi, hw⟩ := toItem?_of_spelled h hdepth hr
  refine ⟨i, ?_, hw⟩
  simp only [item?, isJson_yaml, Bool.false_eq_true, if_false, hi]

end Loading

/-- **Written documents read back.** A valid workflow of a supported version is loaded from the texts
that are written of it, and no field of them is unknown: from its JSON text if its floating-point
numbers are found again from their digits, and from its YAML text if the text spells the object of the
workflow, both within the depth that is read. -/
theorem loadUnresolved_written {w : Workflow} (hp : w.Proper)
    (hversion : Workflow.versionSupported? w.version = some true) (hvalid : w.check.isValid) :
    (w.toValue.depth ≤ Json.maxDepth → w.toValue.Throughout Json.Legible →
      decode? w.json = some (w, {}) ∧ loadUnresolved w.json = .ok w) ∧
    (w.toValue.depth ≤ maxDepth → Spelled w.yaml.toList w.toValue →
      decode? w.yaml = some (w, {}) ∧ loadUnresolved w.yaml = .ok w) := by
  constructor
  · intro hdepth hl
    have hdecode := decode?_of_writes hp hvalid fun r _ => item?_json hp hvalid hdepth hl r
    exact ⟨hdecode, loadUnresolved_of_decode? hversion hvalid hdecode⟩
  · intro hdepth hspelled
    have hdecode := decode?_of_writes hp hvalid fun _ hr => item?_yaml hdepth hspelled hr
    exact ⟨hdecode, loadUnresolved_of_decode? hversion hvalid hdecode⟩

end Document

namespace Sample

/-- A step that tells of a failure. -/
def tell : Step := { name := "tell", kind := .agent "mail" [] none }

/-- A step with a condition, a delay and a fallback. -/
def load : Step where
  name := "load"
  kind := .call "fetch" [.int 3] []
  condition := some ⟨"${{ inputs.day }}", .input, [.field "day"], false⟩
  retryPolicy := some ⟨2, 0.5⟩
  onError := some tell

/-- A workflow of this step, with an input that has a default. -/
def nightly : Workflow where
  version := "1.0"
  name := "nightly"
  inputs := [("day", { type := .string, default := some (.str "today") })]
  steps := [load]

/-- One half is found again from its digits. -/
theorem readsBack_half : Json.ReadsBack 0.5 := by
  intro rest h
  have htext : (Json.layout.render 0.5).toList = ['0', '.', '5'] := by decide +kernel
  refine ⟨⟨false, ['0'], some ['5'], none⟩, ?_, rfl⟩
  rw [htext]
  cases rest with
  | nil => rfl
  | cons c rest => obtain rfl | rfl := h c rfl <;> rfl

theorem nightly_legible : nightly.toValue.Throughout Json.Legible := by
  simp [nightly, load, tell, Workflow.toValue, InputDeclaration.toValue, Step.stepValues, Step.toValue,
    Step.payload, Step.optional, RetryPolicy.toValue, fieldOf, fieldUnless, Value.Throughout,
    Value.ThroughoutAll, Value.ThroughoutFields, Json.Legible, readsBack_half]

theorem nightly_spelled : Spelled nightly.yaml.toList nightly.toValue := by
  rw [Workflow.toList_yaml]
  decide +kernel

theorem proper_str (s : String) : (Value.str s).Proper where
  ordered := by simp [Value.Throughout, Value.Ordered]
  bounded := by simp

theorem nightly_proper : nightly.Proper where
  inputs := List.pairwise_singleton _ _
  defaults := by simpa [nightly] using proper_str "today"
  steps := by
    have hnone : (Value.obj []).Proper :=
      ⟨by simp [Value.Throughout, Value.ThroughoutFields, Value.Ordered, Table.Sorted],
        by simp [Value.throughout_obj]⟩
    have hthree : (Value.int 3).Proper :=
      ⟨by simp [Value.Throughout, Value.Ordered], Value.throughout_count (n := 3) (by decide)⟩
    have hcondition : Expression.IsRead ⟨"${{ inputs.day }}", .input, [.field "day"], false⟩ :=
      ⟨"${{ inputs.day }}", by decide +kernel⟩
    have hsteps : nightly.steps.flatMap Step.subtree = [load, tell] := by
      simp [nightly, load, Step.subtree_eq, Step.nested, StepKind.inner, tell]
    rw [hsteps]
    rintro s hs
    obtain rfl | rfl : s = load ∨ s = tell := by simpa using hs
    · refine ⟨⟨?_, hnone⟩, ?_, ?_⟩
      · simpa [load] using hthree
      · simpa [load] using hcondition
      · simp [load, countBound]
    · exact ⟨hnone, by simp [tell], by simp [tell]⟩

end Sample

namespace Document

/-- A workflow with an input, a delay and a step inside a step reads back from both of its texts. -/
theorem loadUnresolved_written_nightly :
    (decode? Sample.nightly.json = some (Sample.nightly, {}) ∧
      loadUnresolved Sample.nightly.json = .ok Sample.nightly) ∧
    (decode? Sample.nightly.yaml = some (Sample.nightly, {}) ∧
      loadUnresolved Sample.nightly.yaml = .ok Sample.nightly) := by
  obtain ⟨hjson, hyaml⟩ :=
    loadUnresolved_written Sample.nightly_proper (by decide +kernel) (by decide +kernel)
  exact ⟨hjson (by decide +kernel) Sample.nightly_legible,
    hyaml (by decide +kernel) Sample.nightly_spelled⟩

end Document

end Stepflow
