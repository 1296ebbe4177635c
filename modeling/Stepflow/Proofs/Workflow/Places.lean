import Mathlib.Data.List.Nodup
import Stepflow.Proofs.Step.Nesting

/-!
# Where steps stand

A step stands in another at the end of a way that goes from step to step: to the fix of a validation, to an
option of a branch, to a member of a group, or to the fallback (`Step.Child`, `Step.Within`). What
`Workflow.located` lists are the steps of a workflow with all ways to them (`mem_located_iff`).

It lists them in document order. Of two places, the one comes before the other that is on the way to it; that
is a lower place in the same list; or that is not inside the fallback, if the other is (`Location.Before`).
This tells all places apart, and there is only one list of the steps in this order (`ListsSteps.eq_located`).
-/

namespace Stepflow

/-! ## Document order -/

namespace Location

variable {a b c : Location} {l r : Location}

/-- **Document order** of places. -/
inductive Before : Location → Location → Prop
  /-- What a place is on the way to comes behind it. -/
  | inside {s : Segment} {r : Location} : Before [] (s :: r)
  /-- The members of a list come in their order. -/
  | index {m n : Nat} {l r : Location} (h : m < n) : Before (.index m :: l) (.index n :: r)
  /-- The fallback comes last. -/
  | fallback {name : String} {l r : Location} (h : name ≠ "on_error") :
      Before (.field name :: l) (.field "on_error" :: r)
  /-- Behind a common way it goes on alike. -/
  | behind {s : Segment} {l r : Location} (h : Before l r) : Before (s :: l) (s :: r)

namespace Before

theorem append_left (h : a.Before b) : Before (c ++ a) (c ++ b) := by
  induction c with
  | nil => exact h
  | cons s c ih => exact .behind ih

theorem asymm (h : a.Before b) : ¬ b.Before a := by
  induction h with
  | inside => nofun
  | index h =>
    rintro (_ | h' | _ | _)
    · exact absurd h' (Nat.not_lt.2 (Nat.le_of_lt h))
    · exact Nat.lt_irrefl _ h
  | fallback h =>
    rintro (_ | _ | h' | _)
    · exact h' rfl
    · exact h rfl
  | behind h ih =>
    rintro (_ | h' | h' | h')
    · exact Nat.lt_irrefl _ h'
    · exact h' rfl
    · exact ih h'

theorem irrefl (a : Location) : ¬ a.Before a := fun h => h.asymm h

end Before

/-- **A way that turns off before another**: whatever comes behind the one comes before what comes behind
the other. -/
def TurnsOff (a b : Location) : Prop := ∀ l r, Before (a ++ l) (b ++ r)

end Location

/-! ## From a step to those inside it -/

variable {w : Workflow} {s i j t : Step} {l l' loc : Location}

namespace Step

/-- **A step is directly inside another**, at the end of a way. -/
inductive Child (s : Step) : Location → Step → Prop
  /-- It fixes what a validation finds. -/
  | onFailure {stages : List String} {retry : Nat} {i : Step} (h : s.kind = .validate stages retry (some i)) :
      Child s [.field "on_failure"] i
  /-- It is that of an option of a branch. -/
  | option {options : List (BranchOption Step)} {n : Nat} {o : BranchOption Step}
      (h : s.kind = .branch options) (ho : options[n]? = some o) :
      Child s [.field "options", .index n, .field "step"] o.step
  /-- It is a member of a group. -/
  | member {members : List Step} {n : Nat} {i : Step} (h : s.kind = .parallel members)
      (hi : members[n]? = some i) : Child s [.field "steps", .index n] i
  /-- It is the fallback. -/
  | onError {i : Step} (h : s.onError = some i) : Child s [.field "on_error"] i

/-- **A step stands in another**, or is the same, at the end of a way. -/
inductive Within : Step → Location → Step → Prop
  /-- The step itself. -/
  | here {s : Step} : Within s [] s
  /-- A step in one directly inside. -/
  | inside {s i j : Step} {l l' : Location} (hi : s.Child l i) (hj : i.Within l' j) :
      Within s (l ++ l') j

/-- The ways to the steps directly inside a kind of step. -/
def waysOfKind : StepKind Step → List (Location × Step)
  | .validate _ _ fix => fix.toList.map fun i => ([.field "on_failure"], i)
  | .branch options =>
    options.mapIdx fun n o => ([.field "options", .index n, .field "step"], o.step)
  | .parallel members => members.mapIdx fun n i => ([.field "steps", .index n], i)
  | .call .. | .agent .. | .generate .. | .subworkflow .. => []

/-- The ways to the steps directly inside a step. -/
def ways (s : Step) : List (Location × Step) :=
  waysOfKind s.kind ++ s.onError.toList.map fun i => ([.field "on_error"], i)

theorem mem_ways_iff : (l, i) ∈ s.ways ↔ s.Child l i := by
  unfold ways
  rw [List.mem_append]
  constructor
  · rintro (h | h)
    · generalize hk : s.kind = kind at h
      cases kind with
      | validate stages retry fix =>
        obtain ⟨i, hi, heq⟩ := List.mem_map.1 h
        cases heq
        exact .onFailure (Option.mem_toList.1 hi ▸ hk)
      | branch options =>
        obtain ⟨n, hn, heq⟩ := List.mem_mapIdx.1 h
        cases heq
        exact .option hk (List.getElem?_eq_getElem hn)
      | parallel members =>
        obtain ⟨n, hn, heq⟩ := List.mem_mapIdx.1 h
        cases heq
        exact .member hk (List.getElem?_eq_getElem hn)
      | _ => contradiction
    · obtain ⟨i, hi, heq⟩ := List.mem_map.1 h
      cases heq
      exact .onError (Option.mem_toList.1 hi)
  · intro h
    cases h with
    | onFailure h => simp [h, waysOfKind]
    | option h ho =>
      obtain ⟨hn, rfl⟩ := List.getElem?_eq_some_iff.1 ho
      rw [h]
      exact .inl (List.mem_mapIdx.2 ⟨_, hn, rfl⟩)
    | member h hi =>
      obtain ⟨hn, rfl⟩ := List.getElem?_eq_some_iff.1 hi
      rw [h]
      exact .inl (List.mem_mapIdx.2 ⟨_, hn, rfl⟩)
    | onError h => simp [h]

/-- A step inside another is reached by a way. -/
theorem Child.mem_nested (h : s.Child l i) : i ∈ s.nested := by
  unfold nested
  cases h with
  | onFailure h => simp [h, StepKind.inner]
  | option h ho =>
    rw [h]
    exact List.mem_append_left _ (List.mem_map_of_mem (List.mem_of_getElem? ho))
  | member h hi =>
    rw [h]
    exact List.mem_append_left _ (List.mem_of_getElem? hi)
  | onError h => simp [h]

/-- Members of a list turn off one before the other. -/
theorem pairwise_mapIdx_turnsOff {α : Type} (name : String) (rest : Location) (f : α → Step) (as : List α) :
    (as.mapIdx fun n a => ((.field name :: .index n :: rest : Location), f a)).Pairwise
      fun a b => Location.TurnsOff a.1 b.1 := by
  rw [List.pairwise_iff_getElem]
  intro m n hm hn hlt l r
  rw [List.getElem_mapIdx, List.getElem_mapIdx]
  exact .behind (.index hlt)

/-- **The ways from a step** turn off one before the other. -/
theorem ways_pairwise (s : Step) : s.ways.Pairwise fun a b => a.1.TurnsOff b.1 := by
  have hkind : (waysOfKind s.kind).Pairwise fun a b => a.1.TurnsOff b.1 := by
    cases s.kind with
    | validate stages retry fix => cases fix <;> simp [waysOfKind]
    | branch options => exact pairwise_mapIdx_turnsOff _ _ _ _
    | parallel members => exact pairwise_mapIdx_turnsOff _ _ _ _
    | _ => exact .nil
  refine List.pairwise_append.2 ⟨hkind, by cases s.onError <;> simp, ?_⟩
  rintro ⟨la, a⟩ ha ⟨lb, b⟩ hb l r
  obtain ⟨i, -, heq⟩ := List.mem_map.1 hb
  cases heq
  -- no way inside a kind of step begins with the field of the fallback
  have hhead : ∃ name rest, la = .field name :: rest ∧ name ≠ "on_error" := by
    generalize s.kind = kind at ha
    cases kind with
    | validate stages retry fix =>
      obtain ⟨_, -, heq⟩ := List.mem_map.1 ha
      cases heq
      exact ⟨_, _, rfl, by decide⟩
    | branch options =>
      obtain ⟨_, _, heq⟩ := List.mem_mapIdx.1 ha
      cases heq
      exact ⟨_, _, rfl, by decide⟩
    | parallel members =>
      obtain ⟨_, _, heq⟩ := List.mem_mapIdx.1 ha
      cases heq
      exact ⟨_, _, rfl, by decide⟩
    | _ => contradiction
  obtain ⟨name, rest, rfl, hne⟩ := hhead
  exact .fallback hne

/-! ## The steps in a step -/

theorem flatMap_mapIdx {α β γ : Type} (f : Nat → α → β) (g : β → List γ) (as : List α) :
    (as.mapIdx f).flatMap g = (as.mapIdx fun n a => g (f n a)).flatten := by
  rw [List.flatMap_def, List.mapIdx_eq_zipIdx_map, List.mapIdx_eq_zipIdx_map, List.map_map]
  rfl

theorem locatedOption_eq (loc : Location) (s : Option Step) :
    locatedOption loc s = s.toList.flatMap (located loc) := by
  cases s with
  | none => rw [locatedOption]; rfl
  | some i => rw [locatedOption, Option.toList_some, List.flatMap_singleton]

theorem locatedOptions_eq (loc : Location) (place : Nat) (options : List (BranchOption Step)) :
    locatedOptions loc place options = (options.mapIdx fun n o =>
      o.step.located (loc ++ [.index (place + n), .field "step"])).flatten := by
  induction options generalizing place with
  | nil => rw [locatedOptions]; rfl
  | cons o rest ih =>
    obtain ⟨condition, s⟩ := o
    rw [locatedOptions, ih, List.mapIdx_cons, List.flatten_cons]
    simp only [Location.index, Location.field, List.append_assoc, Nat.add_zero, Nat.add_comm 1,
      Nat.add_assoc, List.cons_append, List.nil_append]

theorem locatedMembers_eq (loc : Location) (place : Nat) (members : List Step) :
    locatedMembers loc place members =
      (members.mapIdx fun n s => s.located (loc ++ [.index (place + n)])).flatten := by
  induction members generalizing place with
  | nil => rw [locatedMembers]; rfl
  | cons s rest ih =>
    rw [locatedMembers, ih, List.mapIdx_cons, List.flatten_cons]
    simp only [Location.index, Nat.add_zero, Nat.add_comm 1, Nat.add_assoc]

theorem locatedKind_eq (loc : Location) (kind : StepKind Step) : locatedKind loc kind =
    (waysOfKind kind).flatMap fun way => way.2.located (loc ++ way.1) := by
  cases kind with
  | validate stages retry fix =>
    rw [locatedKind, locatedOption_eq, waysOfKind, List.flatMap_map]
    rfl
  | branch options =>
    rw [locatedKind, locatedOptions_eq, waysOfKind, flatMap_mapIdx]
    simp only [Location.field, List.append_assoc, List.cons_append, List.nil_append, Nat.zero_add]
  | parallel members =>
    rw [locatedKind, locatedMembers_eq, waysOfKind, flatMap_mapIdx]
    simp only [Location.field, List.append_assoc, List.cons_append, List.nil_append, Nat.zero_add]
  | _ => rw [locatedKind]; rfl

/-- **The steps in a step** are the step, and those in the steps that its ways lead to. -/
theorem located_eq (s : Step) (loc : Location) : s.located loc =
    (loc, s) :: s.ways.flatMap fun way => way.2.located (loc ++ way.1) := by
  obtain ⟨name, kind, condition, retryPolicy, onError, skipOnError, rollback, checkpoint⟩ := s
  rw [located, locatedKind_eq, locatedOption_eq, ways, List.flatMap_append, List.flatMap_map]
  rfl

/-- Every way from a step is listed, and no other. -/
theorem mem_located_iff : (l, j) ∈ s.located loc ↔ ∃ way, s.Within way j ∧ l = loc ++ way := by
  induction s using induction generalizing loc with
  | h s ih =>
    rw [located_eq, List.mem_cons, List.mem_flatMap]
    constructor
    · rintro (heq | ⟨⟨l', i⟩, hi, hj⟩)
      · cases heq
        exact ⟨[], .here, (List.append_nil _).symm⟩
      · have hchild := mem_ways_iff.1 hi
        obtain ⟨way, hway, rfl⟩ := (ih i hchild.mem_nested).1 hj
        exact ⟨l' ++ way, .inside hchild hway, List.append_assoc ..⟩
    · rintro ⟨way, hway, rfl⟩
      cases hway with
      | here => exact .inl (by rw [List.append_nil])
      | @inside _ i _ l l' hi hj =>
        exact .inr ⟨(l, i), mem_ways_iff.2 hi,
          (ih i hi.mem_nested).2 ⟨l', hj, (List.append_assoc ..).symm⟩⟩

/-- Steps that are listed side by side are in order, if those of each are and the ways to them turn off one
before the other. -/
theorem pairwise_flatMap_located {ways : List (Location × Step)} {loc : Location}
    (hways : ways.Pairwise fun a b => a.1.TurnsOff b.1)
    (h : ∀ way ∈ ways, ∀ loc, (way.2.located loc).Pairwise fun a b => a.1.Before b.1) :
    (ways.flatMap fun way => way.2.located (loc ++ way.1)).Pairwise fun a b => a.1.Before b.1 := by
  refine List.pairwise_flatMap.2 ⟨fun way hm => h way hm _, hways.imp ?_⟩
  rintro ⟨la, a⟩ ⟨lb, b⟩ hoff ⟨ka, i⟩ hi ⟨kb, j⟩ hj
  obtain ⟨wa, -, rfl⟩ := mem_located_iff.1 hi
  obtain ⟨wb, -, rfl⟩ := mem_located_iff.1 hj
  dsimp only
  rw [List.append_assoc, List.append_assoc]
  exact (hoff wa wb).append_left

/-- **The steps in a step are listed in document order.** -/
theorem located_pairwise (s : Step) (loc : Location) :
    (s.located loc).Pairwise fun a b => a.1.Before b.1 := by
  induction s using induction generalizing loc with
  | h s ih =>
    rw [located_eq]
    refine List.pairwise_cons.2 ⟨?_, pairwise_flatMap_located s.ways_pairwise
      fun way hm loc => ih way.2 (mem_ways_iff.1 hm).mem_nested loc⟩
    rintro ⟨l, j⟩ hj
    obtain ⟨⟨way, i⟩, hi, hj⟩ := List.mem_flatMap.1 hj
    obtain ⟨l', -, rfl⟩ := mem_located_iff.1 hj
    have hne : way ≠ [] := by
      cases mem_ways_iff.1 hi <;> exact List.cons_ne_nil _ _
    obtain ⟨x, rest, rfl⟩ := List.exists_cons_of_ne_nil hne
    have hbefore : Location.Before (loc ++ []) (loc ++ (x :: rest ++ l')) := .append_left .inside
    rwa [List.append_nil, ← List.append_assoc] at hbefore

end Step

/-! ## The steps of a workflow -/

namespace Workflow

/-- **A step stands in a workflow** at a place: in a step of the top level, at the end of a way. -/
inductive Stands (w : Workflow) : Location → Step → Prop
  | intro {n : Nat} {t : Step} {l : Location} {s : Step} (ht : w.steps[n]? = some t) (hs : t.Within l s) :
      Stands w (.field "steps" :: .index n :: l) s

/-- **A list of the steps of a workflow** with their places, in document order. -/
structure ListsSteps (w : Workflow) (ls : List (Location × Step)) : Prop where
  /-- It lists the steps, each where it stands. -/
  all : ∀ loc s, (loc, s) ∈ ls ↔ w.Stands loc s
  /-- It is in document order. -/
  inOrder : ls.Pairwise fun a b => a.1.Before b.1

theorem located_eq (w : Workflow) : w.located =
    (w.steps.mapIdx fun n s => ([Segment.field "steps", .index n], s)).flatMap
      fun way => way.2.located ([] ++ way.1) := by
  rw [located, Step.locatedMembers_eq, Step.flatMap_mapIdx]
  simp only [List.cons_append, List.nil_append, Nat.zero_add]

theorem mem_located_iff : (loc, s) ∈ w.located ↔ w.Stands loc s := by
  rw [located_eq, List.mem_flatMap]
  constructor
  · rintro ⟨⟨l, t⟩, ht, hs⟩
    obtain ⟨n, hn, heq⟩ := List.mem_mapIdx.1 ht
    cases heq
    obtain ⟨way, hway, rfl⟩ := Step.mem_located_iff.1 hs
    exact .intro (List.getElem?_eq_getElem hn) hway
  · rintro ⟨ht, hs⟩
    obtain ⟨hn, rfl⟩ := List.getElem?_eq_some_iff.1 ht
    exact ⟨_, List.mem_mapIdx.2 ⟨_, hn, rfl⟩, Step.mem_located_iff.2 ⟨_, hs, rfl⟩⟩

/-- **The steps of a workflow are listed** in document order. -/
theorem lists_located (w : Workflow) : w.ListsSteps w.located where
  all := fun _ _ => mem_located_iff
  inOrder := by
    rw [located_eq]
    exact Step.pairwise_flatMap_located (Step.pairwise_mapIdx_turnsOff "steps" [] id w.steps)
      fun way _ loc => way.2.located_pairwise loc

/-- No place is listed twice. -/
theorem ListsSteps.nodup {ls : List (Location × Step)} (h : w.ListsSteps ls) : (ls.map Prod.fst).Nodup :=
  List.pairwise_map.2 (h.inOrder.imp fun {a b} hab (heq : a.1 = b.1) =>
    Location.Before.irrefl b.1 (heq ▸ hab))

/-- **There is one list of the steps.** -/
theorem ListsSteps.eq_located {ls : List (Location × Step)} (h : w.ListsSteps ls) : ls = w.located := by
  have hperm : ls.Perm w.located :=
    (List.perm_ext_iff_of_nodup (List.Nodup.of_map _ h.nodup)
      (List.Nodup.of_map _ w.lists_located.nodup)).2 fun ⟨loc, s⟩ =>
      (h.all loc s).trans (w.lists_located.all loc s).symm
  exact hperm.eq_of_pairwise (fun _ _ _ _ hab hba => absurd hba hab.asymm) h.inOrder
    w.lists_located.inOrder

/-- One step stands at a place. -/
theorem Stands.unique (hs : w.Stands loc s) (ht : w.Stands loc t) : s = t := by
  have hnodup := w.lists_located.nodup
  exact congrArg Prod.snd (List.inj_on_of_nodup_map hnodup (mem_located_iff.2 hs) (mem_located_iff.2 ht) rfl)

end Workflow

end Stepflow
