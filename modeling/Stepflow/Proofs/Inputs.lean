import Stepflow.Proofs.Checkpoints
import Stepflow.Proofs.Document.Order
import Stepflow.Proofs.Validation.Written

/-!
# The inputs of a run, settled

Declared inputs are settled one after the other, and each that is settled may put its default in. As every
name is declared once, none sees what another has put in: whether an input is refused depends on what was
given under its own name (`settleInputs_eq_error_iff`), and so does what it is settled to
(`get?_settleInputs`).

Where the defaults are of their declared types, what was settled is accepted, so settling it once more
changes nothing. The same holds of what was given together with any of the defaults, and a resumed run
that is given those has the fingerprint of the first run (`resolveInputs_exact`).
-/

namespace Stepflow

open Script

variable {w : Workflow} {given given' explicit q : Fields} {name other : String} {d d' : InputDeclaration}
  {t : Table InputDeclaration} {e : InputError}

/-! ## One declared input -/

namespace Workflow

/-- **A declared input is refused**: it is given and not of its type, or it is required, has no default
and is not given. -/
inductive Refuses (w : Workflow) (given : Fields) (name : String) (d : InputDeclaration) :
    InputError → Prop
  /-- It is given, and not of its type. -/
  | mistyped {v : Value} (hv : given.get? name = some v) (ht : d.type.accepts v = false) :
      Refuses w given name d (.mistyped w.name name d.type v)
  /-- It is required and has no default, and is not given. -/
  | missing (hv : given.get? name = none) (hd : d.default = none) (hr : d.required = true) :
      Refuses w given name d (.missing w.name name)

/-- Only what is given under its name matters for it. -/
theorem Refuses.of_get? (hr : w.Refuses given name d e) (h : given'.get? name = given.get? name) :
    w.Refuses given' name d e := by
  cases hr with
  | mistyped hv ht => exact .mistyped (h.trans hv) ht
  | missing hv hd hr => exact .missing (h.trans hv) hd hr

theorem settleInput_eq_error_iff : w.settleInput given name d = .error e ↔ w.Refuses given name d e := by
  constructor
  · intro h
    unfold settleInput at h
    split at h
    · rename_i v hv
      split at h
      · contradiction
      · rename_i ht
        exact Except.error.inj h ▸ .mistyped hv (Bool.eq_false_iff.2 ht)
    · rename_i hv
      split at h
      · contradiction
      · rename_i hd
        split at h
        · rename_i hr
          exact Except.error.inj h ▸ .missing hv hd hr
        · contradiction
  · rintro (⟨hv, ht⟩ | ⟨hv, hd, hr⟩)
    · simp [settleInput, hv, ht]
    · simp [settleInput, hv, hd, hr]

/-- **Settling an input** puts its default in where it is not given, and leaves the others alone. -/
theorem get?_settleInput (h : w.settleInput given name d = .ok given') :
    given'.get? other = (given.get? other).or (if other = name then d.default else none) := by
  unfold settleInput at h
  split at h
  · rename_i v hv
    split at h
    · obtain rfl := Except.ok.inj h
      split
      · rename_i heq
        rw [heq, hv, Option.some_or]
      · rw [Option.or_none]
    · contradiction
  · rename_i hv
    split at h
    · rename_i v hd
      obtain rfl := Except.ok.inj h
      rw [Table.get?_insert]
      split
      · rename_i heq
        rw [← heq, if_pos rfl, hv, hd, Option.none_or]
      · rename_i hne
        rw [if_neg (Ne.symm hne), Option.or_none]
    · rename_i hd
      split at h
      · contradiction
      · obtain rfl := Except.ok.inj h
        rw [hd, ite_self, Option.or_none]

/-- What is given stays in order. -/
theorem sorted_settleInput (hs : given.Sorted) (h : w.settleInput given name d = .ok given') :
    given'.Sorted := by
  unfold settleInput at h
  split at h
  · split at h
    · exact Except.ok.inj h ▸ hs
    · contradiction
  · split at h
    · exact Except.ok.inj h ▸ Table.sorted_insert hs
    · split at h
      · contradiction
      · exact Except.ok.inj h ▸ hs

/-! ## All declared inputs -/

theorem settleInputs_cons_eq_ok : w.settleInputs ((name, d) :: t) given = .ok q ↔
    ∃ given', w.settleInput given name d = .ok given' ∧ w.settleInputs t given' = .ok q :=
  Expression.bind_eq_ok

/-- What settling the first input leaves of what is given under the names of the others. -/
theorem get?_settleInput_of_lt (ht : Table.Sorted ((name, d) :: t))
    (h : w.settleInput given name d = .ok given') (hm : (other, d') ∈ t) :
    given'.get? other = given.get? other := by
  have hlt : name < other := (List.pairwise_cons.1 ht).1 _ hm
  have hne : other ≠ name := fun heq => String.lt_irrefl _ (heq ▸ hlt)
  rw [get?_settleInput h, if_neg hne, Option.or_none]

/-- **Settling fails** at the first input that is refused, as it is refused with what was given at first. -/
theorem settleInputs_eq_error_iff (ht : t.Sorted) :
    w.settleInputs t given = .error e ↔ ∃ name d, (name, d) ∈ t ∧ w.Refuses given name d e ∧
      ∀ other d', (other, d') ∈ t → other < name → ∀ e', ¬w.Refuses given other d' e' := by
  induction t generalizing given with
  | nil =>
    refine ⟨nofun, ?_⟩
    rintro ⟨name, d, hm, -⟩
    exact absurd hm List.not_mem_nil
  | cons first rest ih =>
    obtain ⟨k, dk⟩ := first
    obtain ⟨hlt, hrest⟩ := List.pairwise_cons.1 ht
    cases hk : w.settleInput given k dk with
    | error e₀ =>
      have hrefused := settleInput_eq_error_iff.1 hk
      have hfails : w.settleInputs ((k, dk) :: rest) given = .error e₀ := by
        rw [settleInputs, hk]
        rfl
      rw [hfails]
      constructor
      · rintro ⟨⟩
        refine ⟨k, dk, List.mem_cons_self, hrefused, fun other d' hm hother => ?_⟩
        obtain heq | hm := List.mem_cons.1 hm
        · exact absurd ((Prod.mk.inj heq).1 ▸ hother) (String.lt_irrefl _)
        · exact absurd hother (String.lt_asymm (hlt _ hm))
      · rintro ⟨name, d, hm, hr, hfirst⟩
        obtain heq | hm := List.mem_cons.1 hm
        · obtain ⟨rfl, rfl⟩ := Prod.mk.inj heq
          rw [← hk]
          exact settleInput_eq_error_iff.2 hr
        · exact absurd hrefused (hfirst k dk List.mem_cons_self (hlt _ hm) e₀)
    | ok given' =>
      have hnot : ∀ e', ¬w.Refuses given k dk e' := fun e' hr => by
        rw [settleInput_eq_error_iff.2 hr] at hk
        contradiction
      have hstep : w.settleInputs ((k, dk) :: rest) given = w.settleInputs rest given' := by
        rw [settleInputs, hk]
        rfl
      -- what is given under the names of the rest is as it was
      have hsame {name : String} {d : InputDeclaration} (hm : (name, d) ∈ rest) :
          given'.get? name = given.get? name := get?_settleInput_of_lt ht hk hm
      rw [hstep, ih hrest]
      constructor
      · rintro ⟨name, d, hm, hr, hfirst⟩
        refine ⟨name, d, List.mem_cons_of_mem _ hm, hr.of_get? (hsame hm).symm, fun other d' hm' hother e' => ?_⟩
        obtain heq | hm' := List.mem_cons.1 hm'
        · obtain ⟨rfl, rfl⟩ := Prod.mk.inj heq
          exact hnot e'
        · exact fun hr' => hfirst other d' hm' hother e' (hr'.of_get? (hsame hm'))
      · rintro ⟨name, d, hm, hr, hfirst⟩
        obtain heq | hm := List.mem_cons.1 hm
        · obtain ⟨rfl, rfl⟩ := Prod.mk.inj heq
          exact absurd hr (hnot e)
        · exact ⟨name, d, hm, hr.of_get? (hsame hm), fun other d' hm' hother e' hr' =>
            hfirst other d' (List.mem_cons_of_mem _ hm') hother e' (hr'.of_get? (hsame hm').symm)⟩

/-- Where settling succeeds, no input is refused with what was given at first. -/
theorem not_refuses_of_settleInputs (ht : t.Sorted) (h : w.settleInputs t given = .ok q)
    (hm : (name, d) ∈ t) : ¬w.Refuses given name d e := by
  induction t generalizing given with
  | nil => contradiction
  | cons first rest ih =>
    obtain ⟨k, dk⟩ := first
    obtain ⟨given', hk, hq⟩ := settleInputs_cons_eq_ok.1 h
    intro hr
    obtain heq | hm := List.mem_cons.1 hm
    · obtain ⟨rfl, rfl⟩ := Prod.mk.inj heq
      rw [settleInput_eq_error_iff.2 hr] at hk
      contradiction
    · exact ih (List.pairwise_cons.1 ht).2 hq hm (hr.of_get? (get?_settleInput_of_lt ht hk hm))

/-- **Settling fails** exactly if an input is refused. -/
theorem exists_settleInputs_error_iff (ht : t.Sorted) : (∃ e, w.settleInputs t given = .error e) ↔
    ∃ name d e, (name, d) ∈ t ∧ w.Refuses given name d e := by
  constructor
  · rintro ⟨e, he⟩
    obtain ⟨name, d, hm, hr, -⟩ := (settleInputs_eq_error_iff ht).1 he
    exact ⟨name, d, e, hm, hr⟩
  · rintro ⟨name, d, e, hm, hr⟩
    cases h : w.settleInputs t given with
    | error e => exact ⟨e, rfl⟩
    | ok q => exact absurd hr (not_refuses_of_settleInputs ht h hm)

/-- **What inputs are settled to**: what was given, and else the default of the declaration. -/
theorem get?_settleInputs (ht : t.Sorted) (h : w.settleInputs t given = .ok q) :
    q.get? name = (given.get? name).or ((t.get? name).bind InputDeclaration.default) := by
  induction t generalizing given with
  | nil =>
    obtain rfl := Except.ok.inj h
    rw [Table.get?_nil, Option.bind_none, Option.or_none]
  | cons first rest ih =>
    obtain ⟨k, dk⟩ := first
    obtain ⟨hlt, hrest⟩ := List.pairwise_cons.1 ht
    obtain ⟨given', hk, hq⟩ := settleInputs_cons_eq_ok.1 h
    rw [ih hrest hq, get?_settleInput hk, Table.get?]
    by_cases hname : k = name
    · subst hname
      rw [if_pos rfl, if_pos rfl, Table.get?_eq_none_of_lt hlt, Option.bind_none, Option.or_none,
        Option.bind_some]
    · rw [if_neg (Ne.symm hname), if_neg hname, Option.or_none]

theorem sorted_settleInputs (hs : given.Sorted) (h : w.settleInputs t given = .ok q) : q.Sorted := by
  induction t generalizing given with
  | nil => exact Except.ok.inj h ▸ hs
  | cons first rest ih =>
    obtain ⟨given', hk, hq⟩ := settleInputs_cons_eq_ok.1 h
    exact ih (sorted_settleInput hs hk) hq

/-! ## Settling again -/

/-- The default that a workflow declares for an input. -/
def default? (w : Workflow) (name : String) : Option Value :=
  (w.inputs.get? name).bind InputDeclaration.default

/-- **Every default is of its declared type.** -/
def DefaultsTyped (w : Workflow) : Prop := ∀ e ∈ w.inputs, ∀ v ∈ e.2.default, e.2.type.accepts v = true

/-- **Given inputs with some of the defaults**: of those that are not given, each may have its default. -/
def Supplies (w : Workflow) (given explicit : Fields) : Prop :=
  ∀ name, explicit.get? name = given.get? name ∨
    given.get? name = none ∧ explicit.get? name = w.default? name

/-- In a valid workflow every default is of its type. -/
theorem defaultsTyped_of_valid (h : w.check.isValid) : w.DefaultsTyped := by
  intro e he v hv
  have hnone := (parts_of_valid h).1 e he
  obtain hv : e.2.default = some v := hv
  rw [Validation.inputIssues, hv, List.append_eq_nil_iff, Validation.issueIf_eq_nil,
    Validation.issueIf_eq_nil] at hnone
  simpa using hnone.2

/-- What is settled has all defaults. -/
theorem supplies_of_get? (h : ∀ name, q.get? name = (given.get? name).or (w.default? name)) :
    w.Supplies given q := by
  intro name
  rw [h]
  cases hv : given.get? name with
  | some v => exact .inl rfl
  | none => exact .inr ⟨rfl, rfl⟩

/-- With defaults of the declared types no more is refused. -/
theorem Supplies.refuses (hw : w.inputs.Sorted) (htyped : w.DefaultsTyped) (hs : w.Supplies given explicit)
    (hm : (name, d) ∈ w.inputs) (hr : w.Refuses explicit name d e) : w.Refuses given name d e := by
  have hdefault : w.default? name = d.default := by
    rw [default?, (Table.get?_eq_some_iff hw).2 hm, Option.bind_some]
  obtain hsame | ⟨hnone, hfilled⟩ := hs name
  · exact hr.of_get? hsame.symm
  · rw [hdefault] at hfilled
    cases hr with
    | mistyped hv ht =>
      have haccepts := htyped _ hm _ (hfilled.symm.trans hv)
      rw [ht] at haccepts
      contradiction
    | missing _ hd hr => exact .missing hnone hd hr

/-- **Given with some of the defaults**, inputs are settled to the same. -/
theorem Supplies.resolveInputs_eq (hw : w.inputs.Sorted) (htyped : w.DefaultsTyped)
    (hgiven : given.Sorted) (hexplicit : explicit.Sorted) (hs : w.Supplies given explicit)
    (hq : w.resolveInputs given = .ok q) : w.resolveInputs explicit = .ok q := by
  cases hagain : w.resolveInputs explicit with
  | error e =>
    -- what is refused now would have been refused before
    obtain ⟨name, d, e, hm, hr⟩ := (exists_settleInputs_error_iff hw).1 ⟨e, hagain⟩
    exact absurd (hs.refuses hw htyped hm hr) (not_refuses_of_settleInputs hw hq hm)
  | ok q' =>
    refine congrArg Except.ok (Table.eq_of_get? (sorted_settleInputs hexplicit hagain)
      (sorted_settleInputs hgiven hq) fun name => ?_)
    rw [get?_settleInputs hw hagain, get?_settleInputs hw hq]
    obtain hsame | ⟨hnone, hfilled⟩ := hs name
    · rw [hsame]
    · rw [hnone, hfilled, default?, Option.or_self, Option.none_or]

/-! ## Settled exactly -/

/-- **What settling the inputs of a run comes to**, given some. -/
structure SettlesExactly (w : Workflow) (given : Fields) : Prop where
  /-- It fails exactly if a declared input is refused. -/
  fails : (∃ e, w.resolveInputs given = .error e) ↔
    ∃ name d e, (name, d) ∈ w.inputs ∧ w.Refuses given name d e
  /-- Then it reports the first by name. -/
  first : ∀ e, w.resolveInputs given = .error e ↔ ∃ name d, (name, d) ∈ w.inputs ∧
    w.Refuses given name d e ∧
      ∀ other d', (other, d') ∈ w.inputs → other < name → ∀ e', ¬w.Refuses given other d' e'
  /-- If it succeeds, it adds the defaults of what is not given, and nothing else. -/
  filled : ∀ q, w.resolveInputs given = .ok q → q.Sorted ∧
    ∀ name, q.get? name = (given.get? name).or (w.default? name)
  /-- What it adds is settled already. -/
  again : ∀ q, w.resolveInputs given = .ok q → w.resolveInputs q = .ok q
  /-- Given with any of the defaults, the inputs are the same to a run and to one that is resumed, and
  their fingerprint is the one in every checkpoint that a run with what was given at first has saved. -/
  resumed : ∀ q, w.resolveInputs given = .ok q → ∀ explicit : Fields, explicit.Sorted →
    w.Supplies given explicit → w.resolveInputs explicit = .ok q ∧
      ∀ {κ : Type} (r : Runner κ) (id : String), r.run w id explicit = r.run w id given ∧
        r.resume w id explicit = r.resume w id given ∧
        ∀ h x, r.hasStore = true → (r.run w id given).Unfolds h (.ok x) →
          ∀ saved ∈ Trace.saves (exchanges h), saved.checkpoint.inputsHash = inputsHash q

/-- **Inputs are settled exactly, and only once.** A valid workflow declares only defaults of the declared
types; and where that is so, whatever a run is given, what is settled is what was given and the defaults of
what was not, unless an input is refused, the first of which is reported; and settling that again, as a
resumed run does that is given the defaults as well, changes nothing. -/
theorem resolveInputs_exact (hw : w.inputs.Sorted) : (w.check.isValid → w.DefaultsTyped) ∧
    (w.DefaultsTyped → ∀ given : Fields, given.Sorted → w.SettlesExactly given) := by
  refine ⟨defaultsTyped_of_valid, fun htyped given hgiven => ?_⟩
  have hfilled {q : Fields} (hq : w.resolveInputs given = .ok q) : q.Sorted ∧
      ∀ name, q.get? name = (given.get? name).or (w.default? name) :=
    ⟨sorted_settleInputs hgiven hq, fun name => get?_settleInputs hw hq⟩
  refine
    { fails := exists_settleInputs_error_iff hw
      first := fun e => settleInputs_eq_error_iff hw
      filled := fun q => hfilled
      again := fun q hq => ?_
      resumed := fun q hq explicit hexplicit hs => ?_ }
  · exact (supplies_of_get? (hfilled hq).2).resolveInputs_eq hw htyped hgiven (hfilled hq).1 hq
  · have hsame := hs.resolveInputs_eq hw htyped hgiven hexplicit hq
    refine ⟨hsame, fun r id => ⟨?_, ?_, fun h x hstore u saved hm => ?_⟩⟩
    · unfold Runner.run
      rw [hsame, hq]
    · unfold Runner.resume
      rw [hsame, hq]
    · obtain ⟨q', hq', hcourse⟩ := Runner.run_course u
      obtain rfl := Except.ok.inj (hq.symm.trans hq')
      rw [hstore] at hcourse
      exact (Saved.of_content hcourse.checkpointed.saves hm).2.2.2

end Workflow

namespace Sample

/-- A workflow that declares a number with a default, a flag that is required, and a name that is neither. -/
def declaring : Workflow :=
  { Workflow.empty "main" with
    inputs := [("depth", { type := .integer, default := some (.int 3) }),
      ("force", { type := .boolean, required := true }), ("name", { type := .string })]
    steps := [{ Step.call "first" "make" with checkpoint := true }] }

theorem declaring_sorted : declaring.inputs.Sorted := by
  unfold Table.Sorted
  decide

/-- The flag, and something that is not declared. -/
def flagged : Fields := [("extra", .null), ("force", .bool true)]

theorem flagged_sorted : flagged.Sorted := by
  unfold Table.Sorted
  decide

/-- The flag, and the default of the number. -/
def flaggedDeep : Fields := [("depth", .int 3), ("extra", .null), ("force", .bool true)]

/-- A text for the number, a number for the text, and no flag. -/
def confused : Fields := [("depth", .str "3"), ("name", .int 1)]

theorem confused_sorted : confused.Sorted := by
  unfold Table.Sorted
  decide

end Sample

namespace Workflow

open Sample

/-- Given only the flag, the number is filled in, and a run that is resumed with it as well has the same
inputs. Of three inputs that are refused the first is reported. -/
theorem resolveInputs_exact_declaring : declaring.check.isValid = true ∧
    declaring.resolveInputs flagged = .ok flaggedDeep ∧
    declaring.resolveInputs flaggedDeep = .ok flaggedDeep ∧
    owingRunner.resume declaring "r" flaggedDeep = owingRunner.resume declaring "r" flagged ∧
    (∃ h x saved, (owingRunner.run declaring "r" flagged).Unfolds h (.ok x) ∧
      Trace.saves (exchanges h) = [saved] ∧ saved.checkpoint.inputsHash = inputsHash flaggedDeep) ∧
    declaring.resolveInputs confused = .error (.mistyped "main" "depth" .integer (.str "3")) := by
  have hvalid : declaring.check.isValid = true := by decide
  obtain ⟨hguarantee, hsettles⟩ := resolveInputs_exact declaring_sorted
  have htyped := hguarantee hvalid
  have hflagged := hsettles htyped flagged flagged_sorted
  have hfills : declaring.resolveInputs flagged = .ok flaggedDeep := rfl
  obtain ⟨hsorted, hget⟩ := hflagged.filled _ hfills
  obtain ⟨-, hresumed⟩ := hflagged.resumed _ hfills flaggedDeep hsorted (supplies_of_get? hget)
  obtain ⟨-, hresume, hhash⟩ := hresumed owingRunner "r"
  have hrun := follow_unfolds answers 0 (owingRunner.run declaring "r" flagged)
  refine ⟨hvalid, hfills, hflagged.again _ hfills, hresume, ⟨_, _, _, hrun, rfl, ?_⟩, ?_⟩
  · exact hhash _ _ rfl hrun _ (List.mem_singleton_self _)
  · refine ((hsettles htyped confused confused_sorted).first _).2
      ⟨"depth", _, List.mem_cons_self, .mistyped rfl rfl, fun other d hm hlt => ?_⟩
    simp only [declaring, List.mem_cons, Prod.mk.injEq, List.not_mem_nil, or_false] at hm
    obtain ⟨rfl, -⟩ | ⟨rfl, -⟩ | ⟨rfl, -⟩ := hm <;> exact absurd hlt (by decide)

end Workflow

end Stepflow
