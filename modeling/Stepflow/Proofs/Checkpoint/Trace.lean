import Stepflow.Proofs.Checkpoint.Store
import Stepflow.Proofs.Run.Snapshot

/-!
# What a trace does to a store

The requests of a trace that concern a store are those that save a checkpoint and those that remove the
checkpoints of a run. A store that carries them out one after the other comes to another state (`after`).
If the store is lawful, this state holds what the requests say: nothing changes in runs that they do not
name, nothing is lost unless it is removed, and nothing is left that is removed last.
-/

namespace Stepflow

open Script

variable {κ : Type} {σ : Type} {t u : Trace κ} {e : Entry κ} {q : Inquiry κ}

/-- A checkpoint that was to be saved. -/
structure Saved where
  /-- Under this run. -/
  run : String
  /-- The checkpoint. -/
  checkpoint : Checkpoint
  /-- Whether it was saved. -/
  answer : Except CheckpointError Unit

/-- The request neither saves a checkpoint nor removes any. -/
structure Inquiry.StoresNothing (q : Inquiry κ) : Prop where
  /-- It saves none. -/
  save : ∀ run c, q.request ≠ .save run c
  /-- It removes none. -/
  clear : ∀ run, q.request ≠ .clear run

theorem Inquiry.allowsSteps_storesNothing : AllowsSteps (κ := κ) Inquiry.StoresNothing where
  work q hq := by cases hq <;> exact ⟨nofun, nofun⟩
  tell _ _ _ := ⟨nofun, nofun⟩
  into _ _ hq := ⟨hq.save, hq.clear⟩

/-- What an entry saves, if it does. -/
def Entry.saved? : Entry κ → Option Saved
  | ⟨⟨_, _, .save run c⟩, answer⟩ => some ⟨run, c, answer⟩
  | _ => none

/-- The run whose checkpoints an entry removes, if it does. -/
def Entry.cleared? : Entry κ → Option String
  | ⟨⟨_, _, .clear run⟩, _⟩ => some run
  | _ => none

theorem Inquiry.StoresNothing.saved? (h : e.request.StoresNothing) : e.saved? = none := by
  unfold Entry.saved?
  split
  · exact absurd rfl (h.save _ _)
  · rfl

theorem Entry.cleared?_eq_none (h : ∀ run, e.request.request ≠ .clear run) : e.cleared? = none := by
  unfold cleared?
  split
  · exact absurd rfl (h _)
  · rfl

theorem Inquiry.StoresNothing.cleared? (h : e.request.StoresNothing) : e.cleared? = none :=
  Entry.cleared?_eq_none h.clear

namespace Trace

/-- What a trace saves, in order. -/
def saves (t : Trace κ) : List Saved := t.filterMap Entry.saved?

/-- The runs whose checkpoints a trace removes. -/
def clears (t : Trace κ) : List String := t.filterMap Entry.cleared?

@[simp] theorem saves_nil : saves ([] : Trace κ) = [] := rfl

@[simp] theorem clears_nil : clears ([] : Trace κ) = [] := rfl

@[simp] theorem saves_append (t u : Trace κ) : saves (t ++ u) = saves t ++ saves u :=
  List.filterMap_append

@[simp] theorem clears_append (t u : Trace κ) : clears (t ++ u) = clears t ++ clears u :=
  List.filterMap_append

/-- No entry concerns a store. -/
def StoresNothing (t : Trace κ) : Prop := ∀ e ∈ t, e.request.StoresNothing

theorem storesNothing_nil : StoresNothing ([] : Trace κ) := fun _ h => absurd h List.not_mem_nil

theorem StoresNothing.saves (h : t.StoresNothing) : t.saves = [] :=
  List.filterMap_eq_nil_iff.2 fun e he => (h e he).saved?

theorem StoresNothing.clears (h : t.StoresNothing) : t.clears = [] :=
  List.filterMap_eq_nil_iff.2 fun e he => (h e he).cleared?

end Trace

namespace CheckpointStore

variable (S : CheckpointStore σ)

/-- The state after a request is carried out; requests of another kind do not change it. -/
def afterEntry (a : σ) (e : Entry κ) : σ :=
  match e.request.request with
  | .save run c => (S.save run c a).2
  | .clear run => (S.clear run a).2
  | _ => a

/-- **The state after a trace.** -/
def after (a : σ) (t : Trace κ) : σ := t.foldl S.afterEntry a

variable {S} {a : σ} {run other id : String} {d : Checkpoint}

theorem after_append (a : σ) (t u : Trace κ) : S.after a (t ++ u) = S.after (S.after a t) u :=
  List.foldl_append

/-- An entry saves, removes, or changes nothing. -/
theorem afterEntry_cases (S : CheckpointStore σ) (a : σ) (e : Entry κ) :
    (∃ saved, e.saved? = some saved ∧ S.afterEntry a e = (S.save saved.run saved.checkpoint a).2) ∨
      (∃ run, e.cleared? = some run ∧ S.afterEntry a e = (S.clear run a).2) ∨
      S.afterEntry a e = a := by
  obtain ⟨⟨site, step, request⟩, answer⟩ := e
  cases request with
  | save run c => exact .inl ⟨⟨run, c, answer⟩, rfl, rfl⟩
  | clear run => exact .inr (.inl ⟨run, rfl, rfl⟩)
  | _ => exact .inr (.inr rfl)

theorem after_of_storesNothing (h : t.StoresNothing) : S.after a t = a := by
  induction t with
  | nil => rfl
  | cons e t ih =>
    obtain ⟨he, ht⟩ := List.forall_mem_cons.1 h
    have hentry : S.afterEntry a e = a := by
      obtain ⟨saved, hs, -⟩ | ⟨run, hc, -⟩ | heq := S.afterEntry_cases a e
      · rw [he.saved?] at hs
        contradiction
      · rw [he.cleared?] at hc
        contradiction
      · exact heq
    rw [after, List.foldl_cons, hentry]
    exact ih ht

namespace Lawful

/-- **Nothing changes in a run that the trace does not name.** -/
theorem after_other (h : S.Lawful) (hs : ∀ saved ∈ t.saves, saved.run ≠ other)
    (hc : ∀ run ∈ t.clears, run ≠ other) (a : σ) : S.Same other (S.after a t) a := by
  induction t generalizing a with
  | nil => exact .refl _ _ _
  | cons e t ih =>
    have hrest := ih (fun saved hm => hs saved (List.mem_filterMap.2 ?_))
      (fun run hm => hc run (List.mem_filterMap.2 ?_)) (S.afterEntry a e)
    · refine hrest.trans ?_
      obtain ⟨saved, hsaved, heq⟩ | ⟨run, hcleared, heq⟩ | heq := S.afterEntry_cases a e
      · rw [heq]
        exact h.save_other (hs saved (List.mem_filterMap.2 ⟨e, List.mem_cons_self, hsaved⟩)) _ a
      · rw [heq]
        exact h.clear_other (hc run (List.mem_filterMap.2 ⟨e, List.mem_cons_self, hcleared⟩)) a
      · rw [heq]
        exact .refl _ _ _
    · obtain ⟨i, hi, hsaved⟩ := List.mem_filterMap.1 hm
      exact ⟨i, List.mem_cons_of_mem _ hi, hsaved⟩
    · obtain ⟨i, hi, hcleared⟩ := List.mem_filterMap.1 hm
      exact ⟨i, List.mem_cons_of_mem _ hi, hcleared⟩

/-- **Nothing is lost** if the trace removes nothing and saves nothing under the same identifier. -/
theorem after_load (h : S.Lawful) (hs : ∀ saved ∈ t.saves, saved.checkpoint.id ≠ id)
    (hc : t.clears = []) (hd : S.load run id a = .ok d) : S.load run id (S.after a t) = .ok d := by
  induction t generalizing a with
  | nil => exact hd
  | cons e t ih =>
    rw [after, List.foldl_cons]
    refine ih (fun saved hm => hs saved ?_) ?_ ?_
    · obtain ⟨i, hi, hsaved⟩ := List.mem_filterMap.1 hm
      exact List.mem_filterMap.2 ⟨i, List.mem_cons_of_mem _ hi, hsaved⟩
    · exact List.filterMap_eq_nil_iff.2 fun i hi =>
        List.filterMap_eq_nil_iff.1 hc i (List.mem_cons_of_mem _ hi)
    · obtain ⟨saved, hsaved, heq⟩ | ⟨run', hcleared, -⟩ | heq := S.afterEntry_cases a e
      · rw [heq]
        by_cases hrun : saved.run = run
        · rw [hrun]
          exact h.save_load (hs saved (List.mem_filterMap.2 ⟨e, List.mem_cons_self, hsaved⟩)) hd
        · exact ((h.save_other hrun _ a).load _ _).2 hd
      · rw [List.filterMap_eq_nil_iff.1 hc e List.mem_cons_self] at hcleared
        contradiction
      · rw [heq]
        exact hd

/-- **Nothing is left** of a run whose checkpoints are removed last. -/
theorem after_clear (h : S.Lawful) {answer : Except CheckpointError Unit} (hu : u.StoresNothing) (a : σ) :
    S.HasNone run (S.after a (t ++ ⟨{ request := .clear run }, answer⟩ :: u)) := by
  rw [after_append, after, List.foldl_cons]
  show S.HasNone run (S.after (S.clear run _).2 u)
  rw [after_of_storesNothing hu]
  exact h.clear_none run _

end Lawful

end CheckpointStore

end Stepflow
