import Stepflow.Proofs.Run.Undisturbed

/-!
# How often a validation is fixed

A validation calls its stages, and is fixed and called again until a pass over the stages is clean or no
fix is left, whichever is earlier. `Validates` says this of a history without the loops: it names the calls
of every pass and the outcomes of the fixes in their order, and how many there are of each follows from the
replies and from the number of fixes allowed. The main statement is that the histories of a validation in
which nothing is cancelled are these and no others (`validate_unfolds_iff`).
-/

namespace Stepflow

open Script

variable {κ : Type} {r : Runner κ} {execute : Execute κ} {c : Context} {scope : Scope} {name : String}
  {stages rest : List String} {fix : Option Step} {h k : History (Inquiry κ) Inquiry.Answer}
  {a : Attempt} {first left : Nat}

/-! ## One pass -/

/-- The call of a stage, and what it came back with. -/
structure StageCall (κ : Type) where
  /-- The stage. -/
  stage : String
  /-- The callable. -/
  component : κ
  /-- The call. -/
  call : Call
  /-- The reply. -/
  reply : Except String Reply

namespace StageCall

/-- Why the stage did not pass, if it did not. -/
def failure? (x : StageCall κ) : Option StageFailure :=
  (stageFailure? x.reply).map fun reason => ⟨x.stage, reason⟩

/-- The stage did not pass. -/
def isFailure (x : StageCall κ) : Bool := x.failure?.isSome

/-- The turns of the call: it begins without arguments, and its reply is collected. -/
def turns (x : StageCall κ) : History (Inquiry κ) Inquiry.Answer :=
  [.asked ⟨{ request := .begin .callables x.stage x.component (.arguments [] []) }, x.call⟩,
    .asked ⟨{ request := .collect x.call.ticket }, x.reply⟩]

end StageCall

/-- **A pass over the stages**: they are called in order, up to and including the first that does not pass,
and no later one. -/
structure StagePass (r : Runner κ) (stages : List String) (calls : List (StageCall κ)) : Prop where
  /-- Each callable is the registered one. -/
  found : ∀ x ∈ calls, r.registry.resolve .callables x.stage = .found x.component
  /-- The number of calls is the smaller of the number of stages and the place of the first failure. -/
  inOrder : calls.map StageCall.stage =
    stages.take (min stages.length (calls.findIdx StageCall.isFailure + 1))

/-- The failure that a pass found, if it is not clean. -/
def passFailure? (calls : List (StageCall κ)) : Option StageFailure := calls.findSome? StageCall.failure?

/-- The turns of a pass. -/
def passTurns (calls : List (StageCall κ)) : History (Inquiry κ) Inquiry.Answer :=
  calls.flatMap StageCall.turns

theorem stagePass_nil {calls : List (StageCall κ)} : StagePass r [] calls ↔ calls = [] := by
  constructor
  · rintro ⟨-, hin⟩
    rw [List.take_nil] at hin
    exact List.map_eq_nil_iff.1 hin
  · rintro rfl
    exact ⟨List.forall_mem_nil _, rfl⟩

/-- **A pass calls the first stage**, and goes on with the others if it passes. -/
theorem stagePass_cons {stage : String} {calls : List (StageCall κ)} :
    StagePass r (stage :: rest) calls ↔ ∃ x calls', calls = x :: calls' ∧ x.stage = stage ∧
      r.registry.resolve .callables stage = .found x.component ∧
      if x.isFailure then calls' = [] else StagePass r rest calls' := by
  constructor
  · rintro ⟨hfound, hin⟩
    cases calls with
    | nil =>
      rw [List.findIdx_nil, List.length_cons, Nat.min_eq_right (by omega)] at hin
      contradiction
    | cons x calls =>
      obtain ⟨hx, hfound⟩ := List.forall_mem_cons.1 hfound
      rw [List.length_cons, ← Nat.succ_eq_add_one, ← Nat.succ_eq_add_one, Nat.succ_min_succ,
        List.take_succ_cons, List.map_cons] at hin
      obtain ⟨rfl, htail⟩ := List.cons.inj hin
      refine ⟨x, calls, rfl, rfl, hx, ?_⟩
      rw [List.findIdx_cons] at htail
      cases hfailed : x.isFailure with
      | true =>
        rw [hfailed, cond_true, Nat.min_zero, List.take_zero] at htail
        exact List.map_eq_nil_iff.1 htail
      | false =>
        rw [hfailed, cond_false] at htail
        exact ⟨hfound, htail⟩
  · rintro ⟨x, calls', rfl, rfl, hx, hrest⟩
    cases hfailed : x.isFailure with
    | true =>
      rw [hfailed, if_pos rfl] at hrest
      subst hrest
      refine ⟨List.forall_mem_cons.2 ⟨hx, List.forall_mem_nil _⟩, ?_⟩
      rw [List.findIdx_cons, hfailed, cond_true, List.length_cons, Nat.min_eq_right (by omega)]
      rfl
    | false =>
      rw [hfailed, if_neg Bool.false_ne_true] at hrest
      refine ⟨List.forall_mem_cons.2 ⟨hx, hrest.found⟩, ?_⟩
      rw [List.findIdx_cons, hfailed, cond_false, List.length_cons, ← Nat.succ_eq_add_one,
        ← Nat.succ_eq_add_one, Nat.succ_min_succ, List.take_succ_cons, List.map_cons, hrest.inOrder]

/-- The failure of a pass is that of its first call, if this failed. -/
theorem passFailure?_cons (x : StageCall κ) (calls : List (StageCall κ)) :
    passFailure? (x :: calls) = x.failure?.or (passFailure? calls) := by
  rw [passFailure?, List.findSome?_cons]
  cases x.failure? <;> rfl

namespace Runner

/-- The first stage is called if it is registered, and the others are if it passes. -/
theorem runStages_cons {stage : String} {component : κ}
    (hfound : r.registry.resolve .callables stage = .found component) :
    (r.runStages (stage :: rest)).run =
      (RunScript.call .callables stage component (.arguments [] [])).andThen fun reply =>
        match stageFailure? reply with
        | some reason => .done (.ok (some ⟨stage, reason⟩))
        | none => (r.runStages rest).run := by
  have hfind : (r.find .callables stage).run = .done (.ok (some component)) := by
    rw [find, ExceptT.run_mk, hfound]
  rw [runStages, ExceptT.run_bind, hfind]
  refine (andThen_assoc (RunScript.call .callables stage component (.arguments [] [])) _ _).trans ?_
  refine congrArg (andThen · _) (funext fun reply => ?_)
  show ExceptT.run (match stageFailure? reply with
    | some reason => pure (some ⟨stage, reason⟩)
    | none => r.runStages rest) = _
  split <;> rfl

/-- So the call of the first stage comes first, and ends the pass if it fails. -/
theorem runStages_cons_unfolds_iff {stage : String} {component : κ}
    {y : Except StepError (Option StageFailure)}
    (hfound : r.registry.resolve .callables stage = .found component) :
    (r.runStages (stage :: rest)).run.Unfolds h y ↔ ∃ x k, x.stage = stage ∧
      x.component = component ∧ h = StageCall.turns x ++ k ∧
      match x.failure? with
      | some failure => k = [] ∧ y = .ok (some failure)
      | none => (r.runStages rest).run.Unfolds k y := by
  rw [runStages_cons hfound, unfolds_andThen]
  constructor
  · rintro ⟨h₁, h₂, reply, u₁, u₂, rfl⟩
    obtain ⟨call, rfl⟩ := call_unfolds_iff.1 u₁
    refine ⟨⟨stage, component, call, reply⟩, h₂, rfl, rfl, rfl, ?_⟩
    rw [StageCall.failure?]
    split at u₂
    · rename_i reason hreason
      rw [hreason]
      exact unfolds_done.1 u₂
    · rename_i hnone
      rw [hnone]
      exact u₂
  · rintro ⟨⟨_, _, call, reply⟩, k, rfl, rfl, rfl, hnext⟩
    refine ⟨_, k, reply, call_unfolds_iff.2 ⟨call, rfl⟩, ?_, rfl⟩
    rw [StageCall.failure?] at hnext
    split
    · rename_i reason hreason
      rw [hreason] at hnext
      exact unfolds_done.2 hnext
    · rename_i hnone
      rw [hnone] at hnext
      exact hnext

/-- **Registered stages** are called in a pass, which gives the failure that it found. -/
theorem runStages_unfolds_iff {y : Except StepError (Option StageFailure)}
    (hs : ∀ stage ∈ stages, r.registry.has .callables stage) : (r.runStages stages).run.Unfolds h y ↔
      ∃ calls, StagePass r stages calls ∧ h = passTurns calls ∧ y = .ok (passFailure? calls) := by
  induction stages generalizing h with
  | nil =>
    simp only [stagePass_nil]
    constructor
    · intro u
      obtain ⟨rfl, rfl⟩ := unfolds_done.1 u
      exact ⟨[], rfl, rfl, rfl⟩
    · rintro ⟨calls, rfl, rfl, rfl⟩
      exact .done _
  | cons stage rest ih =>
    obtain ⟨hstage, hrest⟩ := List.forall_mem_cons.1 hs
    obtain ⟨component, -, hfound⟩ := Registry.resolve_of_has hstage nofun
    rw [runStages_cons_unfolds_iff hfound]
    constructor
    · rintro ⟨x, k, rfl, rfl, rfl, hnext⟩
      cases hfailed : x.failure? with
      | some failure =>
        rw [hfailed] at hnext
        obtain ⟨rfl, rfl⟩ := hnext
        refine ⟨[x], stagePass_cons.2 ⟨x, [], rfl, rfl, hfound, ?_⟩, rfl, ?_⟩
        · rw [StageCall.isFailure, hfailed, Option.isSome_some, if_pos rfl]
        · rw [passFailure?_cons, hfailed, Option.some_or]
      | none =>
        rw [hfailed] at hnext
        obtain ⟨calls, hpass, rfl, rfl⟩ := (ih hrest).1 hnext
        refine ⟨x :: calls, stagePass_cons.2 ⟨x, calls, rfl, rfl, hfound, ?_⟩, rfl, ?_⟩
        · rw [StageCall.isFailure, hfailed, Option.isSome_none, if_neg Bool.false_ne_true]
          exact hpass
        · rw [passFailure?_cons, hfailed, Option.none_or]
    · rintro ⟨calls, hpass, rfl, rfl⟩
      obtain ⟨x, calls, rfl, rfl, hfound', hnext⟩ := stagePass_cons.1 hpass
      have hcomponent : x.component = component := by
        rw [hfound] at hfound'
        injection hfound' with heq
        exact heq.symm
      refine ⟨x, passTurns calls, rfl, hcomponent, rfl, ?_⟩
      rw [StageCall.isFailure] at hnext
      cases hfailed : x.failure? with
      | some failure =>
        rw [hfailed, Option.isSome_some, if_pos rfl] at hnext
        subst hnext
        exact ⟨rfl, by rw [passFailure?_cons, hfailed, Option.some_or]⟩
      | none =>
        rw [hfailed, Option.isSome_none, if_neg Bool.false_ne_true] at hnext
        refine (ih hrest).2 ⟨calls, hnext, rfl, ?_⟩
        rw [passFailure?_cons, hfailed, Option.none_or]

end Runner

/-! ## All passes -/

/-- **What is done between two passes**: the fix is executed once, if there is one. -/
inductive FixedBy (r : Runner κ) (execute : Execute κ) (c : Context) (scope : Scope) (number : Nat) :
    Option Step → List StepOutcome → History (Inquiry κ) Inquiry.Answer → Prop
  | nothing : FixedBy r execute c scope number none [] []
  | fix {f : Step} {o : StepOutcome} {h : History (Inquiry κ) Inquiry.Answer} :
      ((r.step execute c scope f).under (.fix number)).Unfolds h o →
      FixedBy r execute c scope number (some f) [o] h

/-- **Passes that are followed by another**, with the outcomes of the fixes after them, numbered from
`first`: each pass found a failure, nothing was cancelled, and what was to fix it was done. -/
inductive Revisions (r : Runner κ) (execute : Execute κ) (c : Context) (scope : Scope)
    (stages : List String) (fix : Option Step) : (first : Nat) → List (List (StageCall κ)) →
    List StepOutcome → History (Inquiry κ) Inquiry.Answer → Prop
  | nil {first : Nat} : Revisions r execute c scope stages fix first [] [] []
  | cons {first : Nat} {calls : List (StageCall κ)} {passes : List (List (StageCall κ))}
      {os os' : List StepOutcome} {k l : History (Inquiry κ) Inquiry.Answer} :
      StagePass r stages calls → (passFailure? calls).isSome → FixedBy r execute c scope first fix os k →
      Revisions r execute c scope stages fix (first + 1) passes os' l →
      Revisions r execute c scope stages fix first (calls :: passes) (os ++ os')
        (passTurns calls ++ Runner.pollTurn false :: (k ++ l))

/-- The number of failing passes before the first clean one. -/
def failingPasses (passes : List (List (StageCall κ))) : Nat :=
  passes.findIdx fun calls => (passFailure? calls).isNone

/-- What a validation comes to after its last pass, with the number of fixes made, and of those allowed. -/
def validationOutcome (made allowed : Nat) : Option StageFailure → Except StepError Value
  | none => .ok (validationOutput made)
  | some failure => .error (.validation failure.stage failure.reason allowed)

/-- **A validation in which nothing is cancelled.** It makes as many fixes as are allowed, or as there are
failing passes before the first clean one, whichever is less, and one pass more. -/
inductive Validates (r : Runner κ) (execute : Execute κ) (c : Context) (scope : Scope)
    (stages : List String) (retry : Nat) (fix : Option Step) :
    History (Inquiry κ) Inquiry.Answer → Attempt → Prop
  | intro {passes : List (List (StageCall κ))} {last : List (StageCall κ)} {os : List StepOutcome}
      {h : History (Inquiry κ) Inquiry.Answer} : Revisions r execute c scope stages fix 0 passes os h →
      StagePass r stages last → passes.length = min retry (failingPasses (passes ++ [last])) →
      Validates r execute c scope stages retry fix (h ++ passTurns last)
        { outcome := validationOutcome passes.length retry (passFailure? last), fixes := passes.length
          children := os.map StepOutcome.result, effects := .concat (os.map StepOutcome.effects) }

variable {passes : List (List (StageCall κ))} {last : List (StageCall κ)} {os : List StepOutcome}

theorem Revisions.failed (hr : Revisions r execute c scope stages fix first passes os h) :
    ∀ calls ∈ passes, (passFailure? calls).isNone = false := by
  induction hr with
  | nil => exact List.forall_mem_nil _
  | cons _ hfailed _ _ ih =>
    exact List.forall_mem_cons.2 ⟨Option.isNone_eq_false_iff.2 hfailed, ih⟩

/-- **The number of fixes** is the smaller of those allowed and the failing passes before the first clean
one: there are not more than allowed, and just as many if the last pass fails too. -/
theorem fixes_eq_min_iff (hfailed : ∀ calls ∈ passes, (passFailure? calls).isNone = false) :
    passes.length = min left (failingPasses (passes ++ [last])) ↔
      passes.length ≤ left ∧ ((passFailure? last).isSome → passes.length = left) := by
  rw [failingPasses, findIdx_append_last hfailed]
  cases passFailure? last with
  | none =>
    rw [Option.isNone_none, if_pos rfl, Nat.add_zero, Option.isSome_none]
    constructor
    · intro hn
      exact ⟨by omega, nofun⟩
    · rintro ⟨hle, -⟩
      omega
  | some failure =>
    rw [Option.isNone_some, if_neg Bool.false_ne_true]
    constructor
    · intro hn
      exact ⟨by omega, fun _ => by omega⟩
    · rintro ⟨hle, hleft⟩
      have hleft := hleft rfl
      omega

namespace Fixes

/-- After some more fixes, with these outcomes. -/
def revised (f : Fixes) (n : Nat) (os : List StepOutcome) : Fixes :=
  ⟨f.count + n, f.children ++ os.map StepOutcome.result,
    f.effects ++ .concat (os.map StepOutcome.effects)⟩

/-- The validation ends after a pass, of which it is known what failure it found. -/
def ended (f : Fixes) (allowed : Nat) (failure : Option StageFailure) : Attempt :=
  f.concluded (validationOutcome f.count allowed failure)

theorem revised_nothing (f : Fixes) : f.revised 0 [] = f := by
  simp [revised]

theorem revised_revised (f : Fixes) (m n : Nat) (os os' : List StepOutcome) :
    (f.revised m os).revised n os' = f.revised (n + m) (os ++ os') := by
  simp [revised, Nat.add_assoc, Nat.add_comm n m, Effects.append_assoc, Effects.concat_append]

theorem after_eq (f : Fixes) (o : StepOutcome) : f.after o = f.revised 1 [o] := by
  simp [after, revised]

theorem afterNothing_eq (f : Fixes) : f.afterNothing = f.revised 1 [] := by
  simp [afterNothing, revised]

end Fixes

namespace Runner

section

variable {fixes : Fixes} {allowed : Nat} (hs : ∀ stage ∈ stages, r.registry.has .callables stage)
  (hfix : ∀ f ∈ fix, (r.step execute c scope f).Spares StepOutcome.Spared)

include hs hfix

/-- **The next pass of a validation** is its last if it is clean or no fix is left. Otherwise, since nothing
is cancelled, what is to fix it is done, and the validation goes on with one fix less. -/
theorem validating_cases (hu : Undisturbed h) (hallowed : fixes.count + left = allowed)
    (u : (validating (r.runStages stages) (fix.map (r.plan execute c scope)) left fixes).Unfolds h a) :
    (∃ last, StagePass r stages last ∧ ((passFailure? last).isSome → left = 0) ∧ h = passTurns last ∧
        a = fixes.ended allowed (passFailure? last)) ∨
      ∃ calls os k l m, left = m + 1 ∧ StagePass r stages calls ∧ (passFailure? calls).isSome ∧
        FixedBy r execute c scope fixes.count fix os k ∧
        h = passTurns calls ++ pollTurn false :: (k ++ l) ∧
        (validating (r.runStages stages) (fix.map (r.plan execute c scope)) m
          (fixes.revised 1 os)).Unfolds l a := by
  rw [validating] at u
  obtain ⟨h₁, h₂, outcome, u₁, u₂, rfl⟩ := unfolds_andThen.1 u
  obtain ⟨calls, hpass, rfl, rfl⟩ := (runStages_unfolds_iff hs).1 u₁
  cases hcalls : passFailure? calls with
  | none =>
    rw [hcalls] at u₂
    obtain ⟨rfl, rfl⟩ := unfolds_done.1 u₂
    refine .inl ⟨calls, hpass, ?_, List.append_nil _, ?_⟩
    · rw [hcalls]
      exact fun hsome => absurd hsome Bool.false_ne_true
    · rw [hcalls]
      rfl
  | some failure =>
    rw [hcalls] at u₂
    cases left with
    | zero =>
      obtain ⟨rfl, rfl⟩ := unfolds_done.1 u₂
      refine .inl ⟨calls, hpass, fun _ => rfl, List.append_nil _, ?_⟩
      rw [hcalls, ← hallowed]
      rfl
    | succ left =>
      obtain ⟨h₃, h₄, cancelled, u₃, u₄, rfl⟩ := unfolds_andThen.1 u₂
      obtain rfl := unfolds_isCancelled.1 u₃
      obtain rfl := hu.right.pollTurn_eq
      have hfailed : (passFailure? calls).isSome := by rw [hcalls]; rfl
      refine .inr ?_
      cases fix with
      | none =>
        rw [Fixes.afterNothing_eq] at u₄
        exact ⟨calls, [], [], h₄, left, rfl, hpass, hfailed, .nothing, rfl, u₄⟩
      | some f =>
        obtain ⟨k, l, o, ufix, urest, rfl⟩ := unfolds_andThen.1 u₄
        have hspared : o.Spared := (hfix f rfl).under _ _ ufix hu.right.right.left
        dsimp only at urest
        rw [if_neg hspared, Fixes.after_eq] at urest
        exact ⟨calls, [o], k, l, left, rfl, hpass, hfailed, .fix ufix, rfl, urest⟩

omit hfix in
/-- A pass that is clean, or behind which no fix is left, ends the validation. -/
theorem validating_ends (hlast : StagePass r stages last) (hleft : (passFailure? last).isSome → left = 0)
    (hallowed : fixes.count + left = allowed) :
    (validating (r.runStages stages) (fix.map (r.plan execute c scope)) left fixes).Unfolds
      (passTurns last) (fixes.ended allowed (passFailure? last)) := by
  rw [validating]
  have hcalled := (runStages_unfolds_iff hs).2 ⟨last, hlast, rfl, rfl⟩
  cases hfailure : passFailure? last with
  | none =>
    rw [hfailure] at hcalled
    exact hcalled.andThen_done rfl
  | some failure =>
    rw [hfailure] at hcalled hleft
    obtain rfl := hleft rfl
    obtain rfl : fixes.count = allowed := hallowed
    exact hcalled.andThen_done rfl

/-- A failing pass and a fix are followed by a validation with one fix less. -/
theorem validating_goes_on {calls : List (StageCall κ)} (hpass : StagePass r stages calls)
    (hfailed : (passFailure? calls).isSome) (hfixed : FixedBy r execute c scope fixes.count fix os k)
    (hu : Undisturbed k) (urest : (validating (r.runStages stages) (fix.map (r.plan execute c scope)) left
      (fixes.revised 1 os)).Unfolds h a) :
    (validating (r.runStages stages) (fix.map (r.plan execute c scope)) (left + 1) fixes).Unfolds
      (passTurns calls ++ pollTurn false :: (k ++ h)) a := by
  rw [validating]
  have hcalled := (runStages_unfolds_iff hs).2 ⟨calls, hpass, rfl, rfl⟩
  obtain ⟨failure, hfailure⟩ := Option.isSome_iff_exists.1 hfailed
  rw [hfailure] at hcalled
  refine unfolds_andThen.2 ⟨_, _, _, hcalled, ?_, rfl⟩
  refine unfolds_andThen.2 ⟨[_], k ++ h, false, unfolds_isCancelled.2 rfl, ?_, rfl⟩
  rw [if_neg Bool.false_ne_true]
  cases hfixed with
  | nothing =>
    rw [← Fixes.afterNothing_eq] at urest
    exact urest
  | @fix f o _ ufix =>
    have hspared : o.Spared := (hfix f rfl).under _ _ ufix hu
    refine unfolds_andThen.2 ⟨k, h, o, ufix, ?_, rfl⟩
    dsimp only
    rw [if_neg hspared, Fixes.after_eq]
    exact urest

/-- **A validation with some fixes left** makes some revisions and then its last pass. -/
theorem validating_unfolds (hu : Undisturbed h) (hallowed : fixes.count + left = allowed)
    (u : (validating (r.runStages stages) (fix.map (r.plan execute c scope)) left fixes).Unfolds h a) :
    ∃ passes last os k, Revisions r execute c scope stages fix fixes.count passes os k ∧
      StagePass r stages last ∧ passes.length ≤ left ∧
      ((passFailure? last).isSome → passes.length = left) ∧ h = k ++ passTurns last ∧
      a = (fixes.revised passes.length os).ended allowed (passFailure? last) := by
  -- by induction on the fixes left: behind a failing pass and a fix the loop has one less
  induction left generalizing fixes h with
  | zero =>
    obtain ⟨last, hlast, -, rfl, rfl⟩ | ⟨_, _, _, _, _, hsucc, -⟩ :=
      validating_cases hs hfix hu hallowed u
    · refine ⟨[], last, [], [], .nil, hlast, le_rfl, fun _ => rfl, rfl, ?_⟩
      rw [List.length_nil, Fixes.revised_nothing]
    · contradiction
  | succ left ih =>
    obtain ⟨last, hlast, hleft, rfl, rfl⟩ |
        ⟨calls, os, k, l, left, hsucc, hpass, hfailed, hfixed, rfl, urest⟩ :=
      validating_cases hs hfix hu hallowed u
    · refine ⟨[], last, [], [], .nil, hlast, Nat.zero_le _, fun hfailed => (hleft hfailed).symm, rfl, ?_⟩
      rw [List.length_nil, Fixes.revised_nothing]
    · obtain rfl := Nat.succ.inj hsucc
      have hallowed' : (fixes.revised 1 os).count + left = allowed := by
        show fixes.count + 1 + left = allowed
        omega
      obtain ⟨passes, last, os', k', hrest, hlast, hle, hend, rfl, rfl⟩ :=
        ih hu.right.tail.right hallowed' urest
      refine ⟨calls :: passes, last, os ++ os', _, .cons hpass hfailed hfixed hrest, hlast,
        Nat.succ_le_succ hle, fun hfailed => congrArg (· + 1) (hend hfailed), ?_, ?_⟩
      · simp only [List.append_assoc, List.cons_append]
      · rw [Fixes.revised_revised, List.length_cons]

/-- And revisions and a last pass, within the fixes left, are a validation. -/
theorem Revisions.unfolds (hr : Revisions r execute c scope stages fix fixes.count passes os k)
    (hlast : StagePass r stages last) (hle : passes.length ≤ left)
    (hend : (passFailure? last).isSome → passes.length = left)
    (hallowed : fixes.count + left = allowed) (hu : Undisturbed (k ++ passTurns last)) :
    (validating (r.runStages stages) (fix.map (r.plan execute c scope)) left fixes).Unfolds
      (k ++ passTurns last) ((fixes.revised passes.length os).ended allowed (passFailure? last)) := by
  induction passes generalizing fixes left os k with
  | nil =>
    cases hr
    rw [List.length_nil, Fixes.revised_nothing]
    exact validating_ends hs hlast (fun hfailed => (hend hfailed).symm) hallowed
  | cons calls passes ih =>
    obtain _ | @⟨_, _, _, os, os', k, l, hpass, hfailed, hfixed, hrest⟩ := hr
    -- a validation that makes another revision has a fix left
    obtain ⟨left, rfl⟩ : ∃ m, left = m + 1 := ⟨left - 1, by rw [List.length_cons] at hle; omega⟩
    have hallowed' : (fixes.revised 1 os).count + left = allowed := by
      show fixes.count + 1 + left = allowed
      omega
    have hturns : passTurns calls ++ pollTurn false :: (k ++ l) ++ passTurns last =
        passTurns calls ++ pollTurn false :: (k ++ (l ++ passTurns last)) := by
      simp only [List.append_assoc, List.cons_append]
    rw [hturns] at hu ⊢
    have hgo := ih hrest (Nat.le_of_succ_le_succ hle) (fun hfailed => Nat.succ.inj (hend hfailed))
      hallowed' hu.right.tail.right
    rw [Fixes.revised_revised] at hgo
    exact validating_goes_on hs hfix hpass hfailed hfixed hu.right.tail.left hgo

end

/-- **Validate, fix, validate again.** A validation of registered stages makes its passes and its fixes in
turn: every pass calls the stages up to the first that fails, and the fix is executed once between two
passes, however it ends. It stops behind the first clean pass, or when no fix is left, and says how many
fixes it made, or what failed last. And all that can be told so is possible. -/
theorem validate_unfolds_iff {levels retry : Nat} (hs : ∀ stage ∈ stages, r.registry.has .callables stage)
    (hu : Undisturbed h) :
    (r.kindOf (r.execute levels) c scope name (.validate stages retry fix)).Unfolds h a ↔
      Validates r (r.execute levels) c scope stages retry fix h a := by
  have hfix : ∀ f ∈ fix, (r.step (r.execute levels) c scope f).Spares StepOutcome.Spared :=
    fun f _ => step_spares levels f c scope
  have hallowed : ({} : Fixes).count + retry = retry := Nat.zero_add retry
  have hended (n : Nat) (os : List StepOutcome) (failure : Option StageFailure) :
      (({} : Fixes).revised n os).ended retry failure =
        { outcome := validationOutcome n retry failure, fixes := n
          children := os.map StepOutcome.result, effects := .concat (os.map StepOutcome.effects) } := by
    simp [Fixes.revised, Fixes.ended, Fixes.concluded]
  rw [kindOf, fallbackOf_eq]
  constructor
  · intro u
    obtain ⟨passes, last, os, k, hrevisions, hlast, hle, hend, rfl, rfl⟩ :=
      validating_unfolds hs hfix hu hallowed u
    rw [hended]
    exact .intro hrevisions hlast ((fixes_eq_min_iff hrevisions.failed).2 ⟨hle, hend⟩)
  · rintro ⟨hrevisions, hlast, hn⟩
    obtain ⟨hle, hend⟩ := (fixes_eq_min_iff hrevisions.failed).1 hn
    rw [← hended]
    exact Revisions.unfolds hs hfix hrevisions hlast hle hend hallowed hu

end Runner

namespace Sample

/-- A validation of two stages, with a fix that fails. -/
def mending : StepKind Step := .validate ["make", "test"] 3 (some (Step.call "fix" "boom"))

/-- A runner with the callables that it names. -/
def mender : Runner String where
  registry := { callables := [("boom", "boom"), ("make", "make"), ("test", "test")] }

/-- Answers by which the second stage says no until the fix is made, and only `boom` fails. -/
def mended (n : Nat) (q : Inquiry String) : q.Answer :=
  q.request.steadily (fun name => if name = "boom" then 1 else if name = "test" ∧ n < 5 then 2 else 0)
    fun
      | 1 => .error "boom"
      | 2 => .ok { output := .bool false }
      | _ => .ok { output := .str "made" }

theorem mended_calm (n : Nat) (q : Inquiry String) : Entry.callsOff ⟨q, mended n q⟩ = false :=
  Request.callsOff_steadily q

end Sample

namespace Runner

open Sample

/-- After a fix, though it failed, the second pass is clean. -/
theorem validate_unfolds_iff_mending :
    ∃ (h : History (Inquiry String) Inquiry.Answer) (a : Attempt),
      (∀ stage ∈ ["make", "test"], mender.registry.has .callables stage) ∧ Undisturbed h ∧
      Validates mender (mender.execute 1) {} (.root "flow" "1" false) ["make", "test"] 3
        (some (Step.call "fix" "boom")) h a ∧
      a.outcome.isOk = true ∧ a.fixes = 1 ∧ a.children.map StepResult.status = [.failed] := by
  have hu := follow_unfolds mended 0
    (mender.kindOf (mender.execute 1) {} (.root "flow" "1" false) "check" mending)
  have hs : ∀ stage ∈ ["make", "test"], mender.registry.has .callables stage := by decide
  have hcalm := undisturbed_follow mended_calm 0
    (mender.kindOf (mender.execute 1) {} (.root "flow" "1" false) "check" mending)
  exact ⟨_, _, hs, hcalm, (validate_unfolds_iff hs hcalm).1 hu, by decide +kernel⟩

end Runner

end Stepflow
