import Stepflow.Proofs.Document.Order
import Stepflow.Proofs.Run.Step
import Stepflow.Proofs.Validation.References
import Stepflow.Proofs.Workflow.Places

/-!
# Names that are repeated

Outputs are found by the names of steps, wherever these stand. So a check goes through all steps in document
order and reports each whose name an earlier one has, with the place of the first of these
(`duplicateIssues_eq`). What it remembers of the steps that it has passed are the first places of their names
(`Remembers`).

If it reports none, the names of all steps are different, and no group of steps that have names finds a
name repeated among its members (`check_repeats`).
-/

namespace Stepflow

open Script Validation

variable {κ : Type} {w : Workflow} {s : Step} {loc : Location} {passed rest : List (Location × Step)}
  {seen : List (String × Location)}

namespace Validation

/-- **A step whose name is repeated**, as it is reported: it has a name, and the first of the earlier steps
that has the same stands somewhere. -/
def repeated? (earlier : List (Location × Step)) (loc : Location) (s : Step) : Option Issue :=
  if s.name = "" then none
  else (earlier.find? fun e => e.2.name = s.name).map fun first =>
    ⟨loc.field "name", .duplicateName s.name first.1⟩

/-- All steps of a list whose names are repeated in it, in order. -/
def repeats (ls : List (Location × Step)) : List Issue :=
  ls.zipIdx.filterMap fun e => repeated? (ls.take e.2) e.1.1 e.1.2

/-- **What is remembered of the steps passed**: for every name, the place of the first step that has it. -/
def Remembers (seen : List (String × Location)) (passed : List (Location × Step)) : Prop :=
  ∀ name, name ≠ "" → seen.lookup name = (passed.find? fun e => e.2.name = name).map Prod.fst

theorem remembers_nil : Remembers [] [] := fun _ _ => rfl

theorem Remembers.unnamed (h : Remembers seen passed) (hs : s.name = "") :
    Remembers seen (passed ++ [(loc, s)]) := fun name hname => by
  have hne : ¬ s.name = name := fun heq => hname (heq ▸ hs)
  rw [h name hname, List.find?_append]
  simp [hne]

theorem Remembers.known (h : Remembers seen passed) {first : Location}
    (hfirst : seen.lookup s.name = some first) : Remembers seen (passed ++ [(loc, s)]) :=
  fun name hname => by
    rw [h name hname, List.find?_append]
    by_cases heq : s.name = name
    · obtain ⟨e, he, -⟩ := Option.map_eq_some_iff.1 ((h name hname).symm.trans (heq ▸ hfirst))
      rw [he, Option.some_or]
    · simp [heq]

theorem Remembers.new (h : Remembers seen passed) (hs : s.name ≠ "") (hnew : seen.lookup s.name = none) :
    Remembers ((s.name, loc) :: seen) (passed ++ [(loc, s)]) := fun name hname => by
  rw [Table.lookup_cons, List.find?_append]
  by_cases heq : name = s.name
  · subst heq
    have hnone := Option.map_eq_none_iff.1 ((h s.name hs).symm.trans hnew)
    simp [hnone]
  · have hne : ¬ s.name = name := fun h => heq h.symm
    rw [if_neg heq, h name hname]
    simp [hne]

/-- What is reported from a place on depends on what is remembered of the steps before it. -/
theorem duplicateIssues_after (h : Remembers seen passed) : duplicateIssues seen rest =
    (rest.zipIdx passed.length).filterMap fun e =>
      repeated? ((passed ++ rest).take e.2) e.1.1 e.1.2 := by
  induction rest generalizing seen passed with
  | nil => rfl
  | cons e rest ih =>
    obtain ⟨loc, s⟩ := e
    have hnext {seen' : List (String × Location)} (hseen : Remembers seen' (passed ++ [(loc, s)])) :=
      ih hseen
    simp only [List.length_append, List.length_singleton, List.append_assoc, List.singleton_append]
      at hnext
    rw [duplicateIssues, List.zipIdx_cons, List.filterMap_cons]
    dsimp only
    rw [List.take_left, repeated?]
    by_cases hs : s.name = ""
    · rw [if_pos hs, if_pos hs, hnext (h.unnamed hs)]
    · rw [if_neg hs, if_neg hs]
      cases hlookup : seen.lookup s.name with
      | some first =>
        obtain ⟨e, he, rfl⟩ := Option.map_eq_some_iff.1 ((h s.name hs).symm.trans hlookup)
        rw [he, hnext (h.known hlookup)]
        rfl
      | none =>
        have hnone := Option.map_eq_none_iff.1 ((h s.name hs).symm.trans hlookup)
        rw [hnone, hnext (h.new hs hlookup)]
        rfl

/-- **Repeated names are reported in order**, each with the place where the name was met first. -/
theorem duplicateIssues_eq (ls : List (Location × Step)) : duplicateIssues [] ls = repeats ls :=
  duplicateIssues_after remembers_nil

/-- None is repeated if all names are different. -/
theorem repeats_eq_nil_iff (ls : List (Location × Step)) :
    repeats ls = [] ↔ ((ls.map fun e => e.2.name).filter (· ≠ "")).Nodup := by
  rw [List.Nodup, List.pairwise_filter, List.pairwise_map, List.pairwise_iff_getElem, repeats,
    List.filterMap_eq_nil_iff]
  constructor
  · intro h i j hi hj hlt hni hnj heq
    have hnone := h (ls[j], j) (List.mem_zipIdx_iff_getElem?.2 (List.getElem?_eq_getElem hj))
    rw [repeated?, if_neg (by simpa using hnj), Option.map_eq_none_iff, List.find?_eq_none] at hnone
    exact hnone ls[i] (List.mem_take_iff_getElem.2 ⟨i, by simp; omega, rfl⟩) (by simpa using heq)
  · rintro h ⟨⟨loc, s⟩, j⟩ hj
    obtain ⟨hj, heq⟩ := List.getElem?_eq_some_iff.1 (List.mem_zipIdx_iff_getElem?.1 hj)
    unfold repeated?
    split
    · rfl
    · next hs =>
      rw [Option.map_eq_none_iff, List.find?_eq_none]
      intro e he hname
      obtain ⟨i, hi, rfl⟩ := List.mem_take_iff_getElem.1 he
      have hname : ls[i].2.name = s.name := by simpa using hname
      refine h i j (by omega) hj (by omega) ?_ ?_ ?_
      · simpa [hname] using hs
      · simpa [heq] using hs
      · rw [hname, heq]

end Validation

/-! ## Groups -/

namespace Step

/-- What is in a step is in the steps around it, in the same order. -/
theorem subtree_sublist {d s : Step} (h : s ∈ d.subtree) : s.subtree.Sublist d.subtree := by
  induction d using induction with
  | h d ih =>
    rw [subtree_eq, List.mem_cons, List.mem_flatMap] at h
    obtain rfl | ⟨i, hi, hs⟩ := h
    · exact List.Sublist.refl _
    · rw [subtree_eq d]
      exact ((ih i hi hs).trans (List.sublist_flatten_of_mem (List.mem_map_of_mem hi))).cons _

/-- The names of members are among the names in their group. -/
theorem members_sublist {members : List Step} (h : s.kind = .parallel members) :
    (members.map name).Sublist (s.subtree.map name) := by
  have hnested : members.Sublist s.nested := by
    rw [nested, h]
    exact List.sublist_append_left _ _
  rw [subtree_eq, List.map_cons]
  exact ((hnested.map name).trans (map_name_sublist s.nested)).cons _

end Step

namespace Runner

variable {r : Runner κ} {execute : Execute κ} {c : Context} {scope : Scope} {members : List Step}
  {name other : String} {h : History (Inquiry κ) Inquiry.Answer} {a : Attempt}

/-- **A group whose members have different names** does not fail because a name is repeated. -/
theorem group_not_duplicateName (hn : (members.map Step.name).Nodup)
    (u : (r.kindOf execute c scope name (.parallel members)).Unfolds h a) :
    a.outcome ≠ .error (.duplicateName other) := by
  have hnone : firstRepeated? [] ((members.map (r.plan execute c scope)).map Planned.name) = none := by
    rw [List.map_map]
    exact firstRepeated?_eq_none hn fun _ _ => List.not_mem_nil
  rw [kindOf, membersOf_eq, grouping, hnone] at u
  obtain ⟨os, -, rfl⟩ := unfolds_andThen_done.1 u
  unfold Attempt.ofMembers
  dsimp only
  intro heq
  split at heq
  · cases heq
  · split at heq <;> cases heq

end Runner

/-! ## The check of a workflow -/

namespace Workflow

/-- **What a check says of repeated names**, given the list of all steps. -/
structure ReportsRepeats (w : Workflow) (ls : List (Location × Step)) : Prop where
  /-- The list is that of the steps at all depths, in document order. -/
  lists : w.ListsSteps ls
  /-- In this order each step is reported that has a name which an earlier one has, at the place of its name
  and with the place of the first that has it; and no other name is reported as repeated. -/
  reported : w.check.issues.filter isDuplicateName = repeats ls
  /-- None is reported exactly if the names that are not empty are different. -/
  none_iff : w.check.issues.filter isDuplicateName = [] ↔
    ((ls.map fun e => e.2.name).filter (· ≠ "")).Nodup
  /-- Then no group in the workflow whose members all have names fails because a name is repeated, whatever
  runner runs it. -/
  groups : w.check.issues.filter isDuplicateName = [] → ∀ loc s members, w.Stands loc s →
    s.kind = .parallel members → (∀ m ∈ members, m.name ≠ "") →
      ∀ {κ : Type} (r : Runner κ) (execute : Execute κ) (c : Context) (scope : Scope) h a,
        (r.kindOf execute c scope s.name s.kind).Unfolds h a →
          ∀ name, a.outcome ≠ .error (.duplicateName name)

/-- The names of the members of a group are among those of all steps. -/
theorem members_sublist {members : List Step} (hs : w.Stands loc s) (hk : s.kind = .parallel members) :
    (members.map Step.name).Sublist (w.located.map fun e => e.2.name) := by
  have hmem : s ∈ w.steps.flatMap Step.subtree :=
    w.located_steps ▸ List.mem_map_of_mem (f := Prod.snd) (mem_located_iff.2 hs)
  obtain ⟨d, hd, hsub⟩ := List.mem_flatMap.1 hmem
  have hall : s.subtree.Sublist (w.located.map Prod.snd) := by
    rw [located_steps]
    exact (Step.subtree_sublist hsub).trans (List.sublist_flatten_of_mem (List.mem_map_of_mem hd))
  have hnames := (Step.members_sublist hk).trans (hall.map Step.name)
  rwa [List.map_map] at hnames

/-- **Repeated names are reported exactly.** The list of the steps of a workflow at all depths, in document
order, decides which names are reported as repeated, and how. If none is, groups whose members have names
do not fail because a name is repeated. -/
theorem check_repeats (w : Workflow) : w.ReportsRepeats w.located := by
  have hreported : w.check.issues.filter isDuplicateName = repeats w.located := by
    rw [filter_duplicateName, duplicateIssues_eq]
  have hnone : w.check.issues.filter isDuplicateName = [] ↔
      ((w.located.map fun e => e.2.name).filter (· ≠ "")).Nodup := by
    rw [hreported, repeats_eq_nil_iff]
  refine ⟨w.lists_located, hreported, hnone, fun h loc s members hs hk hnamed => ?_⟩
  intro κ r execute c scope h' a u name
  have hsub := (members_sublist hs hk).filter (· ≠ "")
  rw [List.filter_eq_self.2 (by simpa using hnamed)] at hsub
  rw [hk] at u
  exact Runner.group_not_duplicateName ((hnone.1 h).sublist hsub) u

end Workflow

end Stepflow
