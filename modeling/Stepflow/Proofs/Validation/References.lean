import Stepflow.Validation.Definition

/-!
# What a check says of steps and their references

A check reports a reference to a step that is not done before. It finds such references in the steps of
the top level one by one (`check_unavailable`), and reports no step that is among those that are done
before (`treeIssues_truthful`). Names that are repeated are reported apart from all else
(`filter_duplicateName`).
-/

namespace Stepflow

namespace Validation

variable {scope : Scope} {w : Workflow} {available : List String} {is js : List Issue}

/-- The issues report no step as unavailable that is available, and no name as repeated. -/
def Truthful (available : List String) (is : List Issue) : Prop :=
  ∀ i ∈ is, (∀ raw name, i.problem = .unavailableStep raw name → name ∉ available) ∧
    ∀ name first, i.problem ≠ .duplicateName name first

namespace Truthful

theorem nil : Truthful available [] := nofun

theorem append (hi : Truthful available is) (hj : Truthful available js) :
    Truthful available (is ++ js) := fun i hm => (List.mem_append.1 hm).elim (hi i) (hj i)

theorem flatMap {α : Type} {f : α → List Issue} {as : List α} (h : ∀ a ∈ as, Truthful available (f a)) :
    Truthful available (as.flatMap f) := fun i hm => by
  obtain ⟨a, ha, hi⟩ := List.mem_flatMap.1 hm
  exact h a ha i hi

theorem issueIf {condition : Bool} {loc : Location} {problem : Problem}
    (h : condition = true → (∀ raw name, problem = .unavailableStep raw name → name ∉ available) ∧
      ∀ name first, problem ≠ .duplicateName name first) :
    Truthful available (issueIf condition loc problem) := by
  unfold Validation.issueIf
  split
  · rename_i hc
    intro i hi
    rw [List.mem_singleton.1 hi]
    exact h hc
  · exact nil

end Truthful

theorem referenceIssues_truthful (loc : Location) (e : Expression) :
    Truthful scope.available (referenceIssues scope loc e) := by
  unfold referenceIssues
  split
  · exact .issueIf fun _ => ⟨nofun, nofun⟩
  · refine .issueIf fun hc => ⟨fun raw name h => ?_, nofun⟩
    injection h with _ hname
    rw [← hname]
    simpa using hc
  · exact .nil

theorem textIssues_truthful (loc : Location) (s : String) :
    Truthful scope.available (textIssues scope loc s) := by
  unfold textIssues
  split
  · split
    · exact .flatMap fun e _ => referenceIssues_truthful loc e
    · exact List.forall_mem_singleton.2 ⟨nofun, nofun⟩
  · exact .nil

mutual

theorem valueIssues_truthful (loc : Location) :
    ∀ v, Truthful scope.available (valueIssues scope loc v)
  | .str s => by
    rw [valueIssues]
    exact textIssues_truthful loc s
  | .arr items => by
    rw [valueIssues]
    exact itemIssues_truthful loc 0 items
  | .obj fields => by
    rw [valueIssues]
    exact fieldIssues_truthful loc fields
  | .null | .bool _ | .int _ | .float _ => by
    rw [valueIssues]
    exact .nil

theorem itemIssues_truthful (loc : Location) (place : Nat) :
    ∀ items, Truthful scope.available (itemIssues scope loc place items)
  | [] => by
    rw [itemIssues]
    exact .nil
  | v :: rest => by
    rw [itemIssues]
    exact (valueIssues_truthful _ v).append (itemIssues_truthful loc (place + 1) rest)

theorem fieldIssues_truthful (loc : Location) :
    ∀ fields, Truthful scope.available (fieldIssues scope loc fields)
  | [] => by
    rw [fieldIssues]
    exact .nil
  | (k, v) :: rest => by
    rw [fieldIssues]
    exact (valueIssues_truthful _ v).append (fieldIssues_truthful loc rest)

end

theorem nameIssues_truthful (loc : Location) (name : String) :
    Truthful available (nameIssues loc name) := .issueIf fun _ => ⟨nofun, nofun⟩

theorem stageIssues_truthful (loc : Location) (place : Nat) (stages : List String) :
    Truthful available (stageIssues loc place stages) := by
  induction stages generalizing place with
  | nil => exact .nil
  | cons s rest ih => exact (nameIssues_truthful _ s).append (ih (place + 1))

theorem optionIssues_truthful (loc : Location) (place : Nat) (options : List (BranchOption Step)) :
    Truthful scope.available (optionIssues scope loc place options) := by
  induction options generalizing place with
  | nil => exact .nil
  | cons o rest ih => exact (referenceIssues_truthful _ o.condition).append (ih (place + 1))

theorem policyIssues_truthful (loc : Location) (p : RetryPolicy) :
    Truthful available (policyIssues loc p) :=
  .append (.issueIf fun _ => ⟨nofun, nofun⟩) (.issueIf fun _ => ⟨nofun, nofun⟩)

theorem kindIssues_truthful (loc : Location) (kind : StepKind Step) :
    Truthful scope.available (kindIssues scope loc kind) := by
  cases kind with
  | call action args kwargs =>
    exact ((nameIssues_truthful _ _).append (itemIssues_truthful _ _ _)).append
      (fieldIssues_truthful _ _)
  | agent agent context builder => exact (nameIssues_truthful _ _).append (fieldIssues_truthful _ _)
  | generate generator context builder =>
    exact (nameIssues_truthful _ _).append (fieldIssues_truthful _ _)
  | validate stages retry fix =>
    exact .append (.issueIf fun _ => ⟨nofun, nofun⟩) (stageIssues_truthful _ _ _)
  | subworkflow workflow inputs =>
    exact .append (.append (nameIssues_truthful _ _) (.issueIf fun _ => ⟨nofun, nofun⟩)) (fieldIssues_truthful _ _)
  | branch options => exact .append (.issueIf fun _ => ⟨nofun, nofun⟩) (optionIssues_truthful _ _ _)
  | parallel members => exact .issueIf fun _ => ⟨nofun, nofun⟩

theorem stepIssues_truthful (topLevel : Bool) (loc : Location) (s : Step) :
    Truthful scope.available (stepIssues scope topLevel loc s) :=
  .append (.append (.append (.append (.issueIf fun _ => ⟨nofun, nofun⟩)
    (.flatMap fun e _ => referenceIssues_truthful _ e)) (.flatMap fun p _ => policyIssues_truthful _ p))
    (.issueIf fun _ => ⟨nofun, nofun⟩)) (kindIssues_truthful loc s.kind)

/-- **A step that is reported as unavailable** is not among those that are done before. -/
theorem treeIssues_truthful (loc : Location) (s : Step) :
    Truthful scope.available (treeIssues scope loc s) := by
  unfold treeIssues
  split
  · exact .nil
  · exact (stepIssues_truthful _ _ _).append (.flatMap fun _ _ => stepIssues_truthful _ _ _)

/-! ## Where references are checked -/

theorem mem_stepsIssues {before ss : List Step} {place : Nat} {i : Issue}
    (h : i ∈ stepsIssues w before place ss) : ∃ k s, ss[k]? = some s ∧
      i ∈ treeIssues ⟨w, Workflow.namesIn (before ++ ss.take k)⟩ [.field "steps", .index (place + k)] s := by
  induction ss generalizing before place with
  | nil => contradiction
  | cons s rest ih =>
    rw [stepsIssues, List.mem_append] at h
    obtain h | h := h
    · refine ⟨0, s, rfl, ?_⟩
      rw [List.take_zero, List.append_nil]
      exact h
    · obtain ⟨k, i, hk, hi⟩ := ih h
      refine ⟨k + 1, i, hk, ?_⟩
      rw [List.append_assoc, Nat.add_assoc, Nat.add_comm 1 k] at hi
      exact hi

theorem duplicateName_of_mem {seen : List (String × Location)} {located : List (Location × Step)} {i : Issue}
    (h : i ∈ duplicateIssues seen located) : ∃ name first, i.problem = .duplicateName name first := by
  induction located generalizing seen with
  | nil => contradiction
  | cons l rest ih =>
    obtain ⟨loc, s⟩ := l
    rw [duplicateIssues] at h
    split at h
    · exact ih h
    · split at h
      · obtain rfl | h := List.mem_cons.1 h
        · exact ⟨_, _, rfl⟩
        · exact ih h
      · exact ih h

theorem inputIssues_truthful (name : String) (d : InputDeclaration) :
    Truthful available (inputIssues name d) := by
  unfold inputIssues
  refine .append (.issueIf fun _ => ⟨nofun, nofun⟩) ?_
  split
  · exact .issueIf fun _ => ⟨nofun, nofun⟩
  · exact .nil

/-- What a check reports: repeated names, what is wrong with the steps, and before both what is wrong with
all else. -/
theorem check_eq (w : Workflow) : ∃ before, (∀ available, Truthful available before) ∧
    w.check.issues = before ++ duplicateIssues [] w.located ++ stepsIssues w [] 0 w.steps := by
  refine ⟨_, fun available => ?_, rfl⟩
  exact .append (.append (.append (.issueIf fun _ => ⟨nofun, nofun⟩) (.issueIf fun _ => ⟨nofun, nofun⟩))
    (.flatMap fun _ _ => inputIssues_truthful _ _)) (.issueIf fun _ => ⟨nofun, nofun⟩)

/-- **A reference to an unavailable step** is reported at a step of the top level, and the step that it
names is not in those before. -/
theorem check_unavailable {i : Issue} (h : i ∈ w.check.issues) {raw name : String}
    (hi : i.problem = .unavailableStep raw name) : ∃ k s, w.steps[k]? = some s ∧
      i ∈ treeIssues ⟨w, Workflow.namesIn (w.steps.take k)⟩ [.field "steps", .index k] s ∧
      name ∉ Workflow.namesIn (w.steps.take k) := by
  obtain ⟨before, hbefore, heq⟩ := check_eq w
  rw [heq, List.mem_append, List.mem_append] at h
  obtain (h | h) | h := h
  · -- what is reported before is truthful about any steps, those of this name included
    exact absurd (List.mem_singleton_self name) ((hbefore [name] i h).1 raw name hi)
  · obtain ⟨other, first, hd⟩ := duplicateName_of_mem h
    exact absurd (hi.symm.trans hd) nofun
  · obtain ⟨k, s, hk, hm⟩ := mem_stepsIssues h
    rw [List.nil_append, Nat.zero_add] at hm
    exact ⟨k, s, hk, hm, (treeIssues_truthful _ s i hm).1 raw name hi⟩

/-- Whether an issue is that a name is repeated. -/
def isDuplicateName (i : Issue) : Bool :=
  match i.problem with
  | .duplicateName .. => true
  | _ => false

theorem isDuplicateName_iff {i : Issue} :
    isDuplicateName i = true ↔ ∃ name first, i.problem = .duplicateName name first := by
  unfold isDuplicateName
  split
  · next name first h => exact ⟨fun _ => ⟨name, first, h⟩, fun _ => rfl⟩
  · next h => exact ⟨nofun, fun ⟨name, first, hd⟩ => absurd hd (h name first)⟩

/-- What is truthful has no name that is repeated. -/
theorem Truthful.filter_eq_nil (h : Truthful available is) : is.filter isDuplicateName = [] :=
  List.filter_eq_nil_iff.2 fun i hi hd => by
    obtain ⟨name, first, heq⟩ := isDuplicateName_iff.1 hd
    exact (h i hi).2 name first heq

/-- **Repeated names** are all that is reported of its kind. -/
theorem filter_duplicateName (w : Workflow) :
    w.check.issues.filter isDuplicateName = duplicateIssues [] w.located := by
  obtain ⟨before, hbefore, heq⟩ := check_eq w
  have hsteps : (stepsIssues w [] 0 w.steps).filter isDuplicateName = [] :=
    List.filter_eq_nil_iff.2 fun i hi hd => by
      obtain ⟨k, s, -, hm⟩ := mem_stepsIssues hi
      obtain ⟨name, first, heq⟩ := isDuplicateName_iff.1 hd
      exact (treeIssues_truthful _ s i hm).2 name first heq
  rw [heq, List.filter_append, List.filter_append, (hbefore []).filter_eq_nil, hsteps, List.nil_append,
    List.append_nil]
  exact List.filter_eq_self.2 fun i hi => isDuplicateName_iff.2 (duplicateName_of_mem hi)

end Validation

end Stepflow
