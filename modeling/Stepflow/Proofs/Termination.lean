import Mathlib.Data.List.Perm.Subperm
import Stepflow.Proofs.Compensation
import Stepflow.Proofs.Run.Levels
import Stepflow.Proofs.Run.Parts
import Stepflow.Proofs.Run.Tries

/-!
# Every run ends

A run is a finite script, however its requests are answered; what has to be shown is that this script
is the one meant by the recursion of runs, which goes through the steps, the registry, and two loops
that try again. The recursion is well founded because no workflow is run inside itself, so the names of
the workflows under way are different; the loops are, because they count.
-/

namespace Stepflow

open Script

variable {κ : Type} {r : Runner κ} {execute : Execute κ} {c : Context} {scope scope' : Scope}
  {w w' : Workflow} {site : Site} {s : Step} {h k : History (Inquiry κ) Inquiry.Answer}

/-! ## Scripts -/

namespace Script

variable {ρ : Type} {Answer : ρ → Type} {α : Type} {x y z : Script ρ Answer α}

/-- One script is what is left of another after one turn. -/
def Follows (y x : Script ρ Answer α) : Prop := ∃ turn, x.Leads [turn] y

/-- **The script ends**, however its requests are answered. -/
structure Ends (x : Script ρ Answer α) : Prop where
  /-- No endless sequence of turns begins with it. -/
  finite : Acc Follows x
  /-- Wherever it has come to, it can go on to its end. -/
  goes : ∀ h y, x.Leads h y → ∃ k a, x.Unfolds (h ++ k) a

/-- Giving way is no turn. -/
theorem acc_of_leads_nil (hx : Acc Follows x) (l : x.Leads [] y) : Acc Follows y :=
  ⟨y, fun _ ⟨turn, l'⟩ => hx.inv ⟨turn, l.trans l'⟩⟩

theorem acc_follows (x : Script ρ Answer α) : Acc Follows x := by
  induction x with
  | done a =>
    refine ⟨_, fun y hy => ?_⟩
    obtain ⟨turn, l⟩ := hy
    nomatch l
  | ask q next ih =>
    refine ⟨_, fun y hy => ?_⟩
    obtain ⟨turn, _ | ⟨answer, l⟩⟩ := hy
    exact acc_of_leads_nil (ih answer) l
  | poll deadline next ih =>
    refine ⟨_, fun y hy => ?_⟩
    obtain ⟨turn, _ | _ | ⟨answer, l⟩⟩ := hy
    exact acc_of_leads_nil (ih answer) l
  | pause next ih =>
    refine ⟨_, fun y hy => ?_⟩
    obtain ⟨turn, _ | _ | _ | l⟩ := hy
    exact ih.inv ⟨turn, l⟩
  | sleep deadline next ih =>
    refine ⟨_, fun y hy => ?_⟩
    obtain ⟨turn, _ | _ | _ | _ | ⟨answer, l⟩⟩ := hy
    exact acc_of_leads_nil (ih answer) l

/-- **Every script ends**, if every request has an answer. -/
theorem ends (answer : (q : ρ) → Answer q) (x : Script ρ Answer α) : x.Ends :=
  ⟨acc_follows x, fun _ y l => ⟨_, _, l.unfolds (follow_unfolds (fun _ => answer) 0 y)⟩⟩

end Script

namespace Runner

/-! ## Workflows under way -/

theorem Nests.steps_ne (hn : r.Nests w scope w' scope') : w.steps ≠ [] := by
  obtain ⟨hs, -, -⟩ := hn
  rintro hnil
  rw [hnil] at hs
  contradiction

/-- **The workflows under way** at a site are those around the run, and then one for every run on the
way to the site. All but the last of these are registered, and none is under way twice. -/
theorem Enters.stack (hr : r.registry.Filled) (he : r.Enters w scope site w' scope') :
    ∃ names, scope'.stack = scope.stack ++ names ∧ names.length = site.count .run ∧
      (scope.stack.Nodup → scope'.stack.Nodup) ∧
      (∀ name ∈ names.dropLast, name ∈ r.registry.workflows.names) ∧ (names ≠ [] → w.steps ≠ []) := by
  induction he with
  | here => exact ⟨[], (List.append_nil _).symm, rfl, id, nofun, absurd rfl⟩
  | inside hl _ ih =>
    rw [List.count_cons_of_ne hl]
    exact ih
  | @nested w₁ w₂ w₃ scope₁ scope₂ scope₃ site hn _ ih =>
    obtain ⟨names, hstack, hlength, hnodup, hregistered, hsteps⟩ := ih
    have hfirst := hn.steps_ne
    obtain ⟨hs, hk, hprepare⟩ := hn
    have hfresh := prepare_fresh hprepare
    refine ⟨w₂.name :: names, ?_, ?_, fun h => hnodup ?_, ?_, fun _ => hfirst⟩
    · rw [hstack, Scope.nested, List.append_assoc]
      rfl
    · rw [List.length_cons, hlength, List.count_cons_self]
    · exact List.nodup_append.2 ⟨h, List.nodup_singleton _, fun a ha b hb => by
        rw [List.mem_singleton.1 hb]
        rintro rfl
        exact hfresh ha⟩
    · cases names with
      | nil => nofun
      | cons second names =>
        rw [List.dropLast_cons_cons]
        -- a workflow that runs another has steps, so it does not stand in for an unknown one
        obtain hw | ⟨-, rfl⟩ := prepare_ok hprepare
        · obtain rfl := hr.name_eq hw
          exact List.forall_mem_cons.2 ⟨Table.mem_names hw, hregistered⟩
        · exact absurd rfl (hsteps (List.cons_ne_nil _ _))

/-- **Runs are nested at most once more than workflows are registered.** -/
theorem Enters.bounded (hr : r.registry.Filled) {id : String} {persist : Bool}
    (he : r.Enters w (.root w.name id persist) site w' scope') :
    scope'.stack.Nodup ∧ scope'.stack.length = site.count .run + 1 ∧
      site.count .run ≤ r.registry.workflows.length + 1 := by
  obtain ⟨names, hstack, hlength, hnodup, hregistered, -⟩ := he.stack hr
  have hdistinct : scope'.stack.Nodup := hnodup (List.nodup_singleton _)
  refine ⟨hdistinct, ?_, ?_⟩
  · rw [hstack, List.length_append, hlength]
    exact Nat.add_comm _ _
  · rw [hstack] at hdistinct
    have hlast : names.dropLast.Nodup :=
      (List.nodup_append.1 hdistinct).2.1.sublist (List.dropLast_sublist _)
    have hle := (List.subperm_of_subset hlast hregistered).length_le
    rw [List.length_dropLast, Table.names, List.length_map, hlength] at hle
    omega

/-! ## Tries -/

/-- **The tries that a step makes**, and what they came to: none if it is only completed. Before them
and after them it tries nothing. -/
inductive Dispatches (r : Runner κ) (execute : Execute κ) (c : Context) (scope : Scope) (s : Step) :
    List Attempt → History (Inquiry κ) Inquiry.Answer → Prop
  /-- It is skipped or cancelled before it starts. -/
  | none {h : History (Inquiry κ) Inquiry.Answer} : Trace.layers (exchanges h) = [] →
      Dispatches r execute c scope s [] h
  /-- It starts, is tried, and may run its fallback. -/
  | tried {as : List Attempt} {h k l : History (Inquiry κ) Inquiry.Answer} :
      Trace.layers (exchanges h) = [] →
      r.Tried s.retryPolicy (r.kindOf execute c scope s.name s.kind) 0 as k →
      (∀ m ∈ Trace.layers (exchanges l), m = .fallback) →
      Dispatches r execute c scope s as (h ++ (k ++ l))

/-- **A step makes no more tries than its policy allows.** -/
theorem step_dispatches {o : StepOutcome} (u : (r.step execute c scope s).Unfolds h o) :
    ∃ as, r.Dispatches execute c scope s as h ∧ as.length ≤ maxTries s.retryPolicy := by
  cases step_course u with
  | skipped _ uend =>
    have hend := finish_layers uend
    exact ⟨[], .none hend, Nat.zero_le _⟩
  | cancelled _ uend =>
    have hend := finish_layers uend
    exact ⟨[], .none hend, Nat.zero_le _⟩
  | @tried began n a a' h k l o _ utries ufallback uend =>
    obtain ⟨as, htried, rfl, -, hle⟩ := retried_tried utries
    refine ⟨as, .tried (h := [_, _, _]) rfl htried fun m hm => ?_, hle⟩
    have hfallback := recovering_splits (P := fun _ _ => True) (fun _ _ _ _ _ => trivial)
      ufallback.traces
    rw [exchanges_append, Trace.layers_append, finish_layers uend, List.append_nil] at hm
    exact (hfallback m hm).1

/-! ## Runs -/

/-- A run, with a function for the workflows inside its steps. -/
def runOver (r : Runner κ) (execute : Execute κ) (w : Workflow) (id : String) (inputs : Fields) :
    RunScript κ (Except Refusal Execution) :=
  match w.resolveInputs inputs with
  | .error e => .done (.error (.inputs e))
  | .ok given => r.executeFrom execute [] w given (.root w.name id r.hasStore)

/-- A run that is resumed, with a function for the workflows inside its steps. -/
def resumeOver (r : Runner κ) (execute : Execute κ) (w : Workflow) (id : String) (inputs : Fields) :
    RunScript κ (Except Refusal Execution) :=
  if !r.hasStore then .done (.error .noStore)
  else match w.resolveInputs inputs with
    | .error e => .done (.error (.inputs e))
    | .ok given =>
      (RunScript.request (.latest id)).andThen fun newest =>
        match recordedIn w id given newest with
        | .error e => .done (.error e)
        | .ok recorded => r.executeFrom execute recorded w given (.root w.name id true)

/-- A run is one with the function that counts levels down. -/
theorem run_eq_runOver (w : Workflow) (id : String) (inputs : Fields) :
    r.run w id inputs = r.runOver (r.execute r.levels) w id inputs := rfl

theorem resume_eq_resumeOver (w : Workflow) (id : String) (inputs : Fields) :
    r.resume w id inputs = r.resumeOver (r.execute r.levels) w id inputs := rfl

/-- **What is under way at a site of a run** is a part of a workflow in a scope that the run enters. -/
theorem run_inside {id : String} {inputs : Fields} {y : Except Refusal Execution} {l : Layer}
    (u : (r.run w id inputs).Unfolds h y) (hne : Trace.inside (exchanges h) (l :: site) ≠ []) :
    ∃ w' scope', r.Enters w (.root w.name id r.hasStore) (l :: site) w' scope' ∧
      r.Part w' scope' (roleAt (l :: site)) (Trace.inside (exchanges h) (l :: site)) := by
  unfold Runner.run at u
  split at u
  · obtain ⟨rfl, -⟩ := unfolds_done.1 u
    exact absurd (Trace.inside_nil _) hne
  · exact (Part.run u.traces).inside_run hne

theorem resume_inside {id : String} {inputs : Fields} {y : Except Refusal Execution} {l : Layer}
    (u : (r.resume w id inputs).Unfolds h y) (hne : Trace.inside (exchanges h) (l :: site) ≠ []) :
    ∃ w' scope', r.Enters w (.root w.name id true) (l :: site) w' scope' ∧
      r.Part w' scope' (roleAt (l :: site)) (Trace.inside (exchanges h) (l :: site)) := by
  obtain ⟨-, rfl | ⟨newest, rfl⟩⟩ | ⟨given, c, k, rfl, u₁⟩ := resume_unfolds u
  · exact absurd (Trace.inside_nil _) hne
  -- the question for the newest checkpoint is at no layer
  · exact absurd (Trace.inside_nil _) hne
  · exact (Part.run u₁.traces).inside_run hne

/-- **Runs of a workflow end**, and so do the recursion and the loops in them. -/
structure Terminates (r : Runner κ) (w : Workflow) (id : String) (inputs : Fields) : Prop where
  /-- Runs are those of the one function that solves the recursion through steps and registry. -/
  recursion : ∃ execute : Execute κ, (∀ other, r.IsExecute other ↔ other = execute) ∧
    r.run w id inputs = r.runOver execute w id inputs ∧
    r.resume w id inputs = r.resumeOver execute w id inputs
  /-- A run ends. -/
  run : (r.run w id inputs).Ends
  /-- A resumed run ends. -/
  resume : (r.resume w id inputs).Ends
  /-- Wherever they have come to, no workflow is under way twice, and runs are nested at most once more
  than workflows are registered. -/
  stack : ∀ persist site w' scope', r.Enters w (.root w.name id persist) site w' scope' →
    scope'.stack.Nodup ∧ scope'.stack.length = site.count .run + 1 ∧
      site.count .run ≤ r.registry.workflows.length + 1
  /-- And whatever happens at a site happens in such a scope. -/
  inside : ∀ h y, (r.run w id inputs).Unfolds h y ∨ (r.resume w id inputs).Unfolds h y →
    ∀ l site, Trace.inside (exchanges h) (l :: site) ≠ [] → ∃ persist w' scope',
      r.Enters w (.root w.name id persist) (l :: site) w' scope' ∧
        r.Part w' scope' (roleAt (l :: site)) (Trace.inside (exchanges h) (l :: site))
  /-- A step makes no more tries than its policy allows, so a count of 32 bits has room for them. -/
  tries : ∀ execute c scope (s : Step) h o, (r.step execute c scope s).Unfolds h o →
    ∃ as, r.Dispatches execute c scope s as h ∧ as.length ≤ maxTries s.retryPolicy ∧
      ((∀ p ∈ s.retryPolicy, p.maxAttempts < UInt32.size) → as.length < UInt32.size)
  /-- A try of a validation makes no more fixes than it says, and it is the same with these. -/
  fixes : ∀ execute c scope name stages retry fix h a,
    (r.kindOf execute c scope name (.validate stages retry fix)).Unfolds h a →
    ∃ count ≤ retry, Fixing (r.runStages stages) (r.fallbackOf execute c scope fix) 0 count h ∧
      (retry < UInt32.size → count < UInt32.size)

/-- **Every run terminates**, if the operations of the registry have filled it, whatever workflows refer
to themselves or to one another, and whatever components reply once they do. -/
theorem runs_terminate (r : Runner κ) (hr : r.registry.Filled) (w : Workflow) (id : String)
    (inputs : Fields) : r.Terminates w id inputs where
  recursion := by
    have hexecute := execute_isExecute hr
    refine ⟨_, fun other => ⟨fun h => h.eq hr hexecute, fun h => h ▸ hexecute⟩, ?_, ?_⟩
    · rw [run_eq_runOver]
      unfold runOver
      simp only [executeFrom_eq_of_isExecute hr hexecute]
    · rw [resume_eq_resumeOver]
      unfold resumeOver
      simp only [executeFrom_eq_of_isExecute hr hexecute]
  run := ends (fun q => q.request.steadily (fun _ => 0) fun _ => .ok {}) _
  resume := ends (fun q => q.request.steadily (fun _ => 0) fun _ => .ok {}) _
  stack _ _ _ _ he := he.bounded hr
  inside h y hu l site hne := by
    obtain u | u := hu
    · exact ⟨_, run_inside u hne⟩
    · exact ⟨_, resume_inside u hne⟩
  tries execute c scope s h o u := by
    obtain ⟨as, hd, hle⟩ := step_dispatches u
    exact ⟨as, hd, hle, fun hlt => hle.trans_lt (maxTries_lt hlt)⟩
  fixes execute c scope name stages retry fix h a u := by
    rw [kindOf] at u
    obtain ⟨count, hle, hfixing, -⟩ := validating_fixing u
    exact ⟨count, hle, hfixing, fun hlt => hle.trans_lt hlt⟩

end Runner

namespace Sample

/-- A workflow that runs the other of the two. -/
def ping : Workflow := { Workflow.empty "ping" with steps := [Step.subworkflow "serve" "pong"] }

/-- And the other, which runs the first. -/
def pong : Workflow := { Workflow.empty "pong" with steps := [Step.subworkflow "return" "ping"] }

/-- A registry of both. -/
def rally : Registry String := { workflows := [("ping", ping), ("pong", pong)] }

theorem rally_filled : rally.Filled :=
  .workflow (w := pong) (.workflow (w := ping) (.empty false) rfl) rfl

end Sample

namespace Runner

/-- Two workflows that run each other end: the inner one is not run inside itself. -/
theorem runs_terminate_rally :
    (∃ (h : History (Inquiry String) Inquiry.Answer) (x : Execution),
      (run { registry := Sample.rally } Sample.ping "1" []).Unfolds h (.ok x) ∧
        x.result.error = some ("step 'serve' failed: sub-workflow 'pong' failed: " ++
          "step 'return' failed: workflow cycle detected: ping -> pong -> ping")) ∧
      Terminates { registry := Sample.rally } Sample.ping "1" [] :=
  ⟨⟨_, _, follow_unfolds Sample.answers 0 _, rfl⟩, runs_terminate _ Sample.rally_filled _ _ _⟩

end Runner

end Stepflow
