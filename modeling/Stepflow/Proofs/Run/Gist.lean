import Stepflow.Proofs.Run.Keeping
import Stepflow.Run.Step
import Stepflow.Run.Workflow

/-!
# What is left if times are left out

The gist of a result leaves out how long the steps took, at any depth; the gist of an event or a request
also leaves out identifiers and times of day. Nothing that a run does looks at these, so what it makes
of parts has the gist that it makes of the gists of the parts.
-/

namespace Stepflow

variable {κ : Type}

namespace StepResult

mutual

/-- The result without how long things took. -/
def gist : StepResult → StepResult
  | ⟨name, type, status, output, error, attempts, _, children⟩ =>
    ⟨name, type, status, output, error, attempts, 0, gists children⟩

/-- Results without how long things took. -/
def gists : List StepResult → List StepResult
  | [] => []
  | r :: rest => gist r :: gists rest

end

@[simp] theorem gists_eq (results : List StepResult) : gists results = results.map gist := by
  induction results with
  | nil => rfl
  | cons r rest ih => rw [gists, ih, List.map_cons]

@[simp] theorem gist_status (r : StepResult) : r.gist.status = r.status := by
  cases r
  rw [gist]

@[simp] theorem gist_output (r : StepResult) : r.gist.output = r.output := by
  cases r
  rw [gist]

@[simp] theorem gist_error (r : StepResult) : r.gist.error = r.error := by
  cases r
  rw [gist]

@[simp] theorem gist_name (r : StepResult) : r.gist.name = r.name := by
  cases r
  rw [gist]

@[simp] theorem gist_attempts (r : StepResult) : r.gist.attempts = r.attempts := by
  cases r
  rw [gist]

@[simp] theorem gist_children (r : StepResult) : r.gist.children = r.children.map gist := by
  cases r
  rw [gist, gists_eq]

@[simp] theorem gist_success (r : StepResult) : r.gist.success = r.success := by
  rw [success, gist_status, success]

@[simp] theorem gist_durationMs (r : StepResult) (d : Nat) :
    { r with durationMs := d }.gist = r.gist := by
  cases r
  rw [gist, gist]

theorem status_of_gist {r r' : StepResult} (h : r.gist = r'.gist) : r.status = r'.status := by
  rw [← gist_status, h, gist_status]

theorem error_of_gist {r r' : StepResult} (h : r.gist = r'.gist) : r.error = r'.error := by
  rw [← gist_error, h, gist_error]

end StepResult

/-- The event without times and identifiers of checkpoints. -/
def Event.gist : Event → Event
  | .stepCompleted workflow result => .stepCompleted workflow result.gist
  | .workflowCompleted workflow id success cancelled _ =>
    .workflowCompleted workflow id success cancelled 0
  | .checkpointSaved workflow id step _ => .checkpointSaved workflow id step ""
  | .workflowStarted workflow id total replayed => .workflowStarted workflow id total replayed
  | .stepStarted workflow step type => .stepStarted workflow step type
  | .rollbackStarted workflow step action => .rollbackStarted workflow step action
  | .rollbackCompleted workflow step error => .rollbackCompleted workflow step error

/-- The request without times and identifiers. -/
def Request.gist : Request κ → Request κ
  | .tell e => .tell e.gist
  | .collect _ => .collect 0
  | .save run c =>
    .save run { c with id := "", savedAt := ⟨0, 0⟩, steps := c.steps.map StepResult.gist }
  | .isCancelled => .isCancelled
  | .now => .now
  | .today => .today
  | .jitter => .jitter
  | .freshId => .freshId
  | .begin space name component input => .begin space name component input
  | .defer e => .defer e
  | .latest run => .latest run
  | .clear run => .clear run

/-- The request without times and identifiers, at its site. -/
def Inquiry.gist (q : Inquiry κ) : Inquiry κ :=
  { site := q.site, step := q.step, request := q.request.gist }

/-! ## Steps -/

/-- The outcome without times. -/
def StepOutcome.gist (o : StepOutcome) : StepOutcome := { o with result := o.result.gist }

/-- The try without times. -/
def Attempt.gist (a : Attempt) : Attempt := { a with children := a.children.map StepResult.gist }

/-- The fixes without times. -/
def Fixes.gist (f : Fixes) : Fixes := { f with children := f.children.map StepResult.gist }

theorem Step.conclude_gist (s : Step) (a : Attempt) (tries : Nat) :
    (s.conclude a tries).gist = s.conclude a.gist tries := by
  unfold conclude StepOutcome.gist
  obtain ⟨outcome, fixes, children, effects⟩ := a
  cases outcome with
  | ok output =>
    simp only [Attempt.gist, StepResult.gist, StepResult.gists_eq]
    rfl
  | error e =>
    simp only [Attempt.gist]
    split <;> simp only [StepResult.gist, StepResult.gists_eq]

theorem StepOutcome.outcomeWith_gist (o : StepOutcome) (wrap : String → StepError) :
    o.gist.outcomeWith wrap = o.outcomeWith wrap := by
  simp only [outcomeWith, gist, StepResult.gist_status, StepResult.gist_success,
    StepResult.gist_output, StepResult.gist_error]

theorem Attempt.ofOption_gist (name : String) (o : StepOutcome) :
    (Attempt.ofOption name o).gist = Attempt.ofOption name o.gist := by
  rw [ofOption, ofOption, StepOutcome.outcomeWith_gist]
  rfl

theorem Attempt.recovered_gist (a : Attempt) (e : StepError) (fallback : String)
    (o : StepOutcome) : (a.recovered e fallback o).gist = a.gist.recovered e fallback o.gist := by
  rw [recovered, recovered, StepOutcome.outcomeWith_gist]
  simp only [gist, List.map_append]
  rfl

theorem Fixes.after_gist (f : Fixes) (o : StepOutcome) : (f.after o).gist = f.gist.after o.gist := by
  simp only [after, gist, List.map_append]
  rfl

theorem Fixes.afterNothing_gist (f : Fixes) : f.afterNothing.gist = f.gist.afterNothing := rfl

theorem Fixes.brokenOff_gist (f : Fixes) (e : StepError) :
    (f.brokenOff e).gist = f.gist.brokenOff e := rfl

theorem Fixes.concluded_gist (f : Fixes) (outcome : Except StepError Value) :
    (f.concluded outcome).gist = f.gist.concluded outcome := rfl

theorem Attempt.ofMembers_gist (os : List StepOutcome) :
    (Attempt.ofMembers os).gist = Attempt.ofMembers (os.map StepOutcome.gist) := by
  have hresults : (os.map StepOutcome.gist).map StepOutcome.result =
      (os.map StepOutcome.result).map StepResult.gist := by
    rw [List.map_map, List.map_map]
    rfl
  have heffects : (os.map StepOutcome.gist).map StepOutcome.effects =
      os.map StepOutcome.effects := by
    rw [List.map_map]
    rfl
  unfold ofMembers gist
  rw [hresults, heffects]
  simp only [List.filter_map, List.any_map, List.map_map, Function.comp_def,
    StepResult.gist_status, StepResult.gist_name, StepResult.gist_output]

/-! ## Runs -/

/-- The place without times. -/
def Place.gist (p : Place) : Place := { p with results := p.results.map StepResult.gist }

/-- The result of a run without times. -/
def RunResult.gist (x : RunResult) : RunResult :=
  { x with steps := x.steps.map StepResult.gist, totalMs := 0 }

/-- The run without times. -/
def Execution.gist (x : Execution) : Execution := { x with result := x.result.gist }

theorem Execution.attempt_gist (x : Execution) (workflow : String) :
    (x.attempt workflow).gist = x.gist.attempt workflow := rfl

theorem Place.after_gist (p : Place) (o : StepOutcome) : (p.after o).gist = p.gist.after o.gist := by
  simp only [after, gist, List.map_append]
  rfl

namespace Runner

theorem finalOutput_gist (results : List StepResult) :
    finalOutput (results.map StepResult.gist) = finalOutput results := by
  unfold finalOutput
  rw [← List.map_reverse, List.find?_map]
  simp only [Function.comp_def, StepResult.gist_success, StepResult.gist_output]
  cases results.reverse.find? fun r => r.success && !r.output.isNull with
  | none => rfl
  | some r => exact r.gist_output

theorem resultsAtEnd_gist (w : Workflow) (ending : Ending) (results : List StepResult) :
    (resultsAtEnd w ending results).map StepResult.gist =
      resultsAtEnd w ending (results.map StepResult.gist) := by
  cases ending with
  | cancelled =>
    simp only [resultsAtEnd, List.map_append, List.length_map, List.map_map]
    rfl
  | finished => rfl
  | failed error => rfl

end Runner

/-! ## The same outcome

Two results with the same gist differ only in how long things took, so they have the same outcome. This
needs that the values in them are the same as themselves, which is so where floating-point numbers are
finite, as those in documents are. -/

theorem Float.beq_self {x : Float} (h : x.isFinite = true) : (x == x) = true := by
  show x.toModel.unpack.beq x.toModel.unpack = true
  have hfinite : x.toModel.unpack.isFinite = true := h
  generalize x.toModel.unpack = u at hfinite
  cases u with
  | notANumber => contradiction
  | infinity s => contradiction
  | zero s => rfl
  | finite s m e hm =>
    have hcompare : (compare e e).then (compare m m) = .eq := by
      rw [Int.compare_eq_eq.2 rfl, Nat.compare_eq_eq.2 rfl]
      rfl
    have heq : ((compare e e).then (compare m m)).swap = .eq := congrArg Ordering.swap hcompare
    cases s with
    | positive => exact beq_iff_eq.2 (congrArg some hcompare)
    | negative => exact beq_iff_eq.2 (congrArg some heq)

namespace Value

mutual

/-- Every floating-point number in the value is finite. -/
def Finite : Value → Prop
  | .null | .bool _ | .int _ | .str _ => True
  | .float x => x.isFinite = true
  | .arr items => FiniteList items
  | .obj fields => FiniteFields fields

/-- The same of all values in a list. -/
def FiniteList : List Value → Prop
  | [] => True
  | v :: rest => Finite v ∧ FiniteList rest

/-- The same of all fields. -/
def FiniteFields : List (String × Value) → Prop
  | [] => True
  | (_, v) :: rest => Finite v ∧ FiniteFields rest

end

mutual

/-- A value without infinite numbers is the same as itself. -/
theorem same_self : ∀ {v : Value}, v.Finite → v.same v = true
  | .null, _ => rfl
  | .bool b, _ => by rw [same, beq_self_eq_true]
  | .int n, _ => by rw [same, beq_self_eq_true]
  | .float x, h => by rw [same, Float.beq_self h]
  | .str s, _ => by rw [same, beq_self_eq_true]
  | .arr items, h => by rw [same, sameList_self h]
  | .obj fields, h => by rw [same, sameFields_self h]

theorem sameList_self : ∀ {items : List Value}, FiniteList items → sameList items items = true
  | [], _ => rfl
  | v :: rest, h => by rw [sameList, same_self h.1, sameList_self h.2]; rfl

theorem sameFields_self :
    ∀ {fields : List (String × Value)}, FiniteFields fields → sameFields fields fields = true
  | [], _ => rfl
  | (k, v) :: rest, h => by
    rw [sameFields, beq_self_eq_true, same_self h.1, sameFields_self h.2]
    rfl

end

end Value

namespace StepResult

mutual

/-- Every floating-point number in the outputs is finite. -/
def Finite : StepResult → Prop
  | ⟨_, _, _, output, _, _, _, children⟩ => output.Finite ∧ FiniteAll children

/-- The same of all results in a list. -/
def FiniteAll : List StepResult → Prop
  | [] => True
  | r :: rest => Finite r ∧ FiniteAll rest

end

mutual

/-- **Results of the same gist** have the same outcome. -/
theorem sameOutcome_of_gist :
    ∀ {r r' : StepResult}, r.Finite → r.gist = r'.gist → r.sameOutcome r' = true
  | ⟨name, type, status, output, error, attempts, durationMs, children⟩,
      ⟨name', type', status', output', error', attempts', durationMs', children'⟩, hf, h => by
    obtain ⟨rfl, rfl, rfl, rfl, rfl, rfl, -, hchildren⟩ := StepResult.mk.inj h
    rw [sameOutcome, Value.same_self hf.1, sameOutcomes_of_gists hf.2 hchildren]
    simp

theorem sameOutcomes_of_gists :
    ∀ {as bs : List StepResult}, FiniteAll as → gists as = gists bs → sameOutcomes as bs = true
  | [], [], _, _ => rfl
  | [], _ :: _, _, h => by contradiction
  | _ :: _, [], _, h => by contradiction
  | a :: as, b :: bs, hf, h => by
    obtain ⟨hhead, htail⟩ := List.cons.inj h
    rw [sameOutcomes, sameOutcome_of_gist hf.1 hhead, sameOutcomes_of_gists hf.2 htail]
    rfl

end

end StepResult

namespace RunResult

/-- Every floating-point number in the outputs is finite. -/
def Finite (x : RunResult) : Prop := x.output.Finite ∧ StepResult.FiniteAll x.steps

/-- **Runs of the same gist** have the same outcome. -/
theorem sameOutcome_of_gist {x y : RunResult} (hf : x.Finite) (h : x.gist = y.gist) :
    x.sameOutcome y = true := by
  obtain ⟨hworkflow, -, hsuccess, hsteps, hcancelled, houtput, -⟩ := RunResult.mk.inj h
  rw [← StepResult.gists_eq, ← StepResult.gists_eq] at hsteps
  rw [sameOutcome, hworkflow, hsuccess, hcancelled, ← houtput, Value.same_self hf.1,
    StepResult.sameOutcomes_of_gists hf.2 hsteps]
  simp

end RunResult

end Stepflow
