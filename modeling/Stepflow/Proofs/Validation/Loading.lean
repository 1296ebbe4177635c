import Mathlib.Data.List.Forall2
import Stepflow.Validation.Load

/-!
# Loading and validating agree

Loading a document stops at the first thing that is wrong with it, and validating it gathers all that is
wrong. The main statement of this file is that the two agree on every text and for every registry
(`load_validate_agree`): what loading accepts has a report without issues, and the failure that loading
stops at can be read off the report.
-/

namespace Stepflow

variable {κ : Type} {r : Registry κ} {w : Workflow} {text : String}

/-- Issues that are failures of references, one for each failure and at its location, in their order. -/
def RegistryError.ReportedAs (es : List RegistryError) (is : List Issue) : Prop :=
  List.Forall₂ (fun e i => e.location = some i.location.text ∧ i.problem = .unresolved e) es is

/-- The failures of the references of a workflow that are put off. -/
def Document.putOff {κ : Type} (r : Registry κ) (w : Workflow) : List RegistryError :=
  (w.referenceErrors r).filter fun e => e.kind = .deferred

namespace Workflow

/-- A reference that is not known fails at its own location. -/
theorem location_of_mem_unresolved {loc : Location} {e : RegistryError}
    (h : (loc, e) ∈ w.unresolved r) : e.location = some loc.text := by
  obtain ⟨ref, -, href⟩ := List.mem_filterMap.1 h
  obtain ⟨e', he, hp⟩ := Option.map_eq_some_iff.1 href
  obtain ⟨rfl, rfl⟩ := Prod.mk.inj hp
  unfold Registry.referenceError? at he
  split at he
  · contradiction
  · rw [← Option.some.inj he]

/-- The failures of one sort among the references, and the issues that are made of them. -/
theorem referenceErrors_filter_reported (p : RegistryError → Bool) :
    RegistryError.ReportedAs ((w.referenceErrors r).filter p)
      (((w.unresolved r).filter fun u => p u.2).map fun (loc, e) => ⟨loc, .unresolved e⟩) := by
  rw [referenceErrors, List.filter_map, RegistryError.ReportedAs, List.forall₂_map_left_iff,
    List.forall₂_map_right_iff]
  refine List.forall₂_same.2 fun (loc, e) h => ?_
  exact ⟨location_of_mem_unresolved (List.mem_of_mem_filter h), rfl⟩

end Workflow

namespace Document

/-- The issues about references are those that block loading. -/
theorem referenceReport_issues : RegistryError.ReportedAs (blocking r w) (referenceReport r w).issues :=
  Workflow.referenceErrors_filter_reported fun e => e.kind ≠ .deferred

/-- The warnings about references are those that are put off. -/
theorem referenceReport_warnings :
    RegistryError.ReportedAs (putOff r w) (referenceReport r w).warnings :=
  Workflow.referenceErrors_filter_reported fun e => e.kind = .deferred

/-- Nothing blocks loading exactly if there is no issue about references. -/
theorem blocking_eq_nil_iff : blocking r w = [] ↔ (referenceReport r w).issues = [] := by
  have h := referenceReport_issues (r := r) (w := w)
  constructor
  · intro hb
    rw [hb] at h
    exact List.forall₂_nil_left_iff.1 h
  · intro hi
    rw [hi] at h
    exact List.forall₂_nil_right_iff.1 h

theorem unknownFields_warnings (v : Value) : (Validation.unknownFields v).warnings = [] := by
  unfold Validation.unknownFields
  split <;> rfl

/-- A document that can be read is read as a workflow, and what nothing reads in it is no warning. -/
theorem decode?_eq_some {unknown : Report} (h : decode? text = some (w, unknown)) :
    workflow? text = some w ∧ unknown.warnings = [] := by
  obtain ⟨w', hw, h⟩ := Option.bind_eq_some_iff.1 h
  obtain ⟨v, -, h⟩ := Option.bind_eq_some_iff.1 h
  obtain ⟨rfl, rfl⟩ := Prod.mk.inj (Option.some.inj h)
  exact ⟨hw, unknownFields_warnings v⟩

/-! ## Both at once -/

/-- The report that validating gives for a workflow with these unknown fields. -/
def fullReport {κ : Type} (r : Registry κ) (w : Workflow) (unknown : Report) : Report :=
  ({ issues := versionIssues w } : Report) ++ unknown ++ w.check ++ referenceReport r w

theorem fullReport_issues (unknown : Report) : (fullReport r w unknown).issues =
    versionIssues w ++ (unknown ++ w.check).issues ++ (referenceReport r w).issues := by
  change versionIssues w ++ unknown.issues ++ w.check.issues ++ _ =
    versionIssues w ++ (unknown.issues ++ w.check.issues) ++ _
  rw [List.append_assoc (versionIssues w)]

theorem fullReport_issues_eq_nil {unknown : Report} : (fullReport r w unknown).issues = [] ↔
    versionIssues w = [] ∧ (unknown ++ w.check).issues = [] ∧ blocking r w = [] := by
  rw [fullReport_issues, List.append_eq_nil_iff, List.append_eq_nil_iff, and_assoc,
    blocking_eq_nil_iff]

theorem fullReport_warnings {unknown : Report} (h : unknown.warnings = []) :
    (fullReport r w unknown).warnings = (referenceReport r w).warnings := by
  change [] ++ unknown.warnings ++ [] ++ _ = _
  rw [h]
  rfl

/-- What loading a document and validating it come to, by the phase in which loading stops. -/
inductive Verdict {κ : Type} (r : Registry κ) (text : String) :
    Except LoadError Workflow → Except LoadError Report → Prop
  /-- It cannot be read. -/
  | undecodable : Verdict r text (.error .undecodable) (.error .undecodable)
  /-- Its version is not supported. -/
  | unsupported (w : Workflow) (unknown : Report) (read : decode? text = some (w, unknown))
      (version : Workflow.versionSupported? w.version = some false) :
      Verdict r text (.error (.unsupportedVersion w.version Workflow.supportedVersions))
        (.ok (fullReport r w unknown))
  /-- Its version is not at fault, but something else in it is. -/
  | invalid (w : Workflow) (unknown : Report) (read : decode? text = some (w, unknown))
      (version : versionIssues w = []) (wrong : (unknown ++ w.check).issues ≠ []) :
      Verdict r text (.error (.invalid (unknown ++ w.check))) (.ok (fullReport r w unknown))
  /-- Nothing is wrong with it but the components that it names. -/
  | unresolved (w : Workflow) (unknown : Report) (read : decode? text = some (w, unknown))
      (version : versionIssues w = []) (right : (unknown ++ w.check).issues = [])
      (blocked : blocking r w ≠ []) :
      Verdict r text (.error (.unresolved (blocking r w))) (.ok (fullReport r w unknown))
  /-- Nothing is wrong with it. -/
  | loaded (w : Workflow) (unknown : Report) (read : decode? text = some (w, unknown))
      (version : versionIssues w = []) (right : (unknown ++ w.check).issues = [])
      (resolved : blocking r w = []) :
      Verdict r text (.ok w) (.ok (fullReport r w unknown))

theorem mem_versionIssues (h : Workflow.versionSupported? w.version = some false) :
    ⟨[.field "version"], .unsupportedVersion w.version Workflow.supportedVersions⟩ ∈ versionIssues w := by
  rw [versionIssues, decide_eq_true h]
  exact List.mem_singleton_self _

theorem versionIssues_eq_nil (h : ¬Workflow.versionSupported? w.version = some false) :
    versionIssues w = [] := by
  rw [versionIssues, decide_eq_false h]
  rfl

/-- Loading and validating a text come to one of the five verdicts. -/
theorem verdict (r : Registry κ) (text : String) :
    Verdict r text (load r text) (validate r text) := by
  unfold load loadUnresolved validate
  cases hd : decode? text with
  | none => exact .undecodable
  | some read =>
    obtain ⟨w, unknown⟩ := read
    by_cases hv : Workflow.versionSupported? w.version = some false
    · simp only [if_pos hv]
      exact .unsupported w unknown hd hv
    · have hn := versionIssues_eq_nil hv
      by_cases hr : (unknown ++ w.check).issues = []
      · have hvalid : (unknown ++ w.check).isValid = true := List.isEmpty_iff.2 hr
        simp only [if_neg hv, if_pos hvalid]
        by_cases hb : blocking r w = []
        · rw [if_pos (List.isEmpty_iff.2 hb)]
          exact .loaded w unknown hd hn hr hb
        · rw [if_neg (mt List.isEmpty_iff.1 hb)]
          exact .unresolved w unknown hd hn hr hb
      · have hinvalid : ¬(unknown ++ w.check).isValid = true := mt List.isEmpty_iff.1 hr
        simp only [if_neg hv, if_neg hinvalid]
        exact .invalid w unknown hd hn hr

/-- Loading a text agrees with validating it. -/
structure Agreement {κ : Type} (r : Registry κ) (text : String) : Prop where
  /-- What is loaded is a text whose report has no issue. -/
  loaded : (∃ w, load r text = .ok w) ↔ ∃ p, validate r text = .ok p ∧ p.issues = []
  /-- Both refuse the same texts as unreadable. -/
  undecodable : load r text = .error .undecodable ↔ validate r text = .error .undecodable
  /-- Nothing else keeps a text from being reported on. -/
  reported : ∀ e, validate r text = .error e → e = .undecodable
  /-- The report has the version that loading refuses as an issue. -/
  unsupported : ∀ version supported, load r text = .error (.unsupportedVersion version supported) →
    ∃ p, validate r text = .ok p ∧
      ⟨[.field "version"], .unsupportedVersion version supported⟩ ∈ p.issues
  /-- The report goes on from the issues for which loading refuses the text, to the references that would
  have blocked it. -/
  invalid : ∀ q, load r text = .error (.invalid q) → ∃ w p is, workflow? text = some w ∧
    validate r text = .ok p ∧ p.issues = q.issues ++ is ∧ RegistryError.ReportedAs (blocking r w) is
  /-- The report has the failed references for which loading refuses the text, and no other issue. -/
  unresolved : ∀ es, load r text = .error (.unresolved es) →
    ∃ p, validate r text = .ok p ∧ RegistryError.ReportedAs es p.issues
  /-- The warnings of the report are the references that are put off. -/
  warned : ∀ p, validate r text = .ok p → ∃ w, workflow? text = some w ∧
    RegistryError.ReportedAs (putOff r w) p.warnings

/-! ## What the verdicts share -/

namespace Verdict

variable {l : Except LoadError Workflow} {v : Except LoadError Report}

/-- A text is loaded exactly if its report has no issue. -/
theorem loaded_iff (h : Verdict r text l v) : (∃ w, l = .ok w) ↔ ∃ p, v = .ok p ∧ p.issues = [] := by
  have hreport : ∀ {w : Workflow} {unknown : Report},
      (∃ p, (.ok (fullReport r w unknown) : Except LoadError Report) = .ok p ∧ p.issues = []) ↔
        (fullReport r w unknown).issues = [] := fun {w} {unknown} =>
    ⟨by rintro ⟨_, ⟨⟩, hi⟩; exact hi, fun hi => ⟨_, rfl, hi⟩⟩
  cases h with
  | undecodable => exact iff_of_false (by rintro ⟨_, ⟨⟩⟩) (by rintro ⟨_, ⟨⟩, _⟩)
  | unsupported w unknown read version =>
    refine iff_of_false (by rintro ⟨_, ⟨⟩⟩) ?_
    rw [hreport, fullReport_issues_eq_nil]
    rintro ⟨hnone, -, -⟩
    exact absurd (mem_versionIssues version) (hnone ▸ List.not_mem_nil)
  | invalid w unknown read version wrong =>
    refine iff_of_false (by rintro ⟨_, ⟨⟩⟩) ?_
    rw [hreport, fullReport_issues_eq_nil]
    exact fun hi => wrong hi.2.1
  | unresolved w unknown read version right blocked =>
    refine iff_of_false (by rintro ⟨_, ⟨⟩⟩) ?_
    rw [hreport, fullReport_issues_eq_nil]
    exact fun hi => blocked hi.2.2
  | loaded w unknown read version right resolved =>
    refine iff_of_true ⟨w, rfl⟩ ?_
    rw [hreport, fullReport_issues_eq_nil]
    exact ⟨version, right, resolved⟩

/-- A text is refused as unreadable by both or by none. -/
theorem undecodable_iff (h : Verdict r text l v) :
    l = .error .undecodable ↔ v = .error .undecodable := by
  cases h with
  | undecodable => exact iff_of_true rfl rfl
  | unsupported | invalid | unresolved | loaded => exact iff_of_false (by rintro ⟨⟩) (by rintro ⟨⟩)

/-- A text without a report cannot be read. -/
theorem eq_undecodable {e : LoadError} (h : Verdict r text l (.error e)) : e = .undecodable := by
  cases h
  rfl

/-- A refused version is among the issues. -/
theorem version_reported {version supported : String}
    (h : Verdict r text (.error (.unsupportedVersion version supported)) v) :
    ∃ p, v = .ok p ∧ ⟨[.field "version"], .unsupportedVersion version supported⟩ ∈ p.issues := by
  cases h with
  | unsupported w unknown read version =>
    refine ⟨_, rfl, ?_⟩
    rw [fullReport_issues]
    exact List.mem_append_left _ (List.mem_append_left _ (mem_versionIssues version))

/-- The issues for which a text is refused come first, and then its blocking references. -/
theorem invalid_reported {q : Report} (h : Verdict r text (.error (.invalid q)) v) :
    ∃ w p is, workflow? text = some w ∧ v = .ok p ∧ p.issues = q.issues ++ is ∧
      RegistryError.ReportedAs (blocking r w) is := by
  cases h with
  | invalid w unknown read version wrong =>
    refine ⟨w, _, _, (decode?_eq_some read).1, rfl, ?_, referenceReport_issues⟩
    rw [fullReport_issues, version, List.nil_append]

/-- The references for which a text is refused are its only issues. -/
theorem unresolved_reported {es : List RegistryError}
    (h : Verdict r text (.error (.unresolved es)) v) :
    ∃ p, v = .ok p ∧ RegistryError.ReportedAs es p.issues := by
  cases h with
  | unresolved w unknown read version right blocked =>
    refine ⟨_, rfl, ?_⟩
    rw [fullReport_issues, version, right]
    exact referenceReport_issues

/-- The warnings are the references that are put off, whatever the verdict. -/
theorem warnings {p : Report} (h : Verdict r text l (.ok p)) :
    ∃ w, workflow? text = some w ∧ RegistryError.ReportedAs (putOff r w) p.warnings := by
  cases h with
  | unsupported w unknown read _ | invalid w unknown read _ _ | unresolved w unknown read _ _ _
  | loaded w unknown read _ _ _ =>
    obtain ⟨hw, hu⟩ := decode?_eq_some read
    exact ⟨w, hw, fullReport_warnings hu ▸ referenceReport_warnings⟩

end Verdict

/-- **Loading and validating agree** on every text and for every registry. -/
theorem load_validate_agree (r : Registry κ) (text : String) : Agreement r text where
  loaded := (verdict r text).loaded_iff
  undecodable := (verdict r text).undecodable_iff
  reported := fun _ he => (he ▸ verdict r text).eq_undecodable
  unsupported := fun _ _ he => (he ▸ verdict r text).version_reported
  invalid := fun _ he => (he ▸ verdict r text).invalid_reported
  unresolved := fun _ he => (he ▸ verdict r text).unresolved_reported
  warned := fun _ hp => (hp ▸ verdict r text).warnings

end Document

end Stepflow
