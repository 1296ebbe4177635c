import Stepflow.Checkpoint.Store
import Stepflow.Proofs.Files.Tree

/-!
# What stores keep

A store that is lawful keeps the checkpoints of different runs apart, loses none when another one is
saved, and has none of a run left when they are removed, whatever the operations answer. Both stores
are lawful: the one in memory because tables keep their names apart, and the one of files because what
is changed in the directory of a run is not seen outside it.
-/

namespace Stepflow

namespace CheckpointStore

variable {σ : Type} (S : CheckpointStore σ)

/-- The same checkpoints of a run are found in two states. -/
structure Same (run : String) (a b : σ) : Prop where
  /-- Under each identifier. -/
  load : ∀ id c, S.load run id a = .ok c ↔ S.load run id b = .ok c
  /-- As the newest. -/
  latest : ∀ c, S.latest run a = .ok (some c) ↔ S.latest run b = .ok (some c)
  /-- And when they are listed. -/
  list : ∀ ids, ids ≠ [] → (S.list run a = .ok ids ↔ S.list run b = .ok ids)

/-- No checkpoint of a run is found. -/
structure HasNone (run : String) (a : σ) : Prop where
  /-- Under any identifier. -/
  load : ∀ id c, S.load run id a ≠ .ok c
  /-- As the newest. -/
  latest : ∀ c, S.latest run a ≠ .ok (some c)
  /-- Or when they are listed. -/
  list : ∀ ids, S.list run a = .ok ids → ids = []

/-- **A lawful store.** -/
structure Lawful : Prop where
  /-- Saving changes nothing in other runs. -/
  save_other : ∀ {run other : String}, run ≠ other → ∀ c a, S.Same other (S.save run c a).2 a
  /-- Nor does removing. -/
  clear_other : ∀ {run other : String}, run ≠ other → ∀ a, S.Same other (S.clear run a).2 a
  /-- Saving loses no checkpoint of another identifier. -/
  save_load : ∀ {run id : String} {c d : Checkpoint} {a : σ}, c.id ≠ id → S.load run id a = .ok d →
    S.load run id (S.save run c a).2 = .ok d
  /-- After removing there is none left. -/
  clear_none : ∀ run a, S.HasNone run (S.clear run a).2

namespace Same

variable {S} {run : String} {a b c : σ}

theorem refl (S : CheckpointStore σ) (run : String) (a : σ) : S.Same run a a :=
  ⟨fun _ _ => Iff.rfl, fun _ => Iff.rfl, fun _ _ => Iff.rfl⟩

theorem trans (h : S.Same run a b) (h' : S.Same run b c) : S.Same run a c :=
  ⟨fun id d => (h.load id d).trans (h'.load id d), fun d => (h.latest d).trans (h'.latest d),
    fun ids hne => (h.list ids hne).trans (h'.list ids hne)⟩

end Same

end CheckpointStore

/-! ## In memory -/

namespace MemoryStore

variable {runs : Runs} {run other id : String} {c d : Checkpoint}

theorem ofRun_insert_self (cs : List Checkpoint) : ofRun (runs.insert run cs) run = cs := by
  rw [ofRun, Table.get?_insert_self]
  rfl

theorem ofRun_insert_of_ne (cs : List Checkpoint) (hne : run ≠ other) :
    ofRun (runs.insert run cs) other = ofRun runs other := by
  rw [ofRun, ofRun, Table.get?_insert_of_ne _ _ hne]

/-- All that is found of a run is found in its list. -/
theorem same_of_ofRun {a b : Runs} (h : ofRun a run = ofRun b run) : store.Same run a b := by
  refine ⟨fun id c => ?_, fun c => ?_, fun ids _ => ?_⟩
  · show load run id a = _ ↔ load run id b = _
    rw [load, load, h]
  · show Except.ok (Checkpoint.newest? (ofRun a run)) = _ ↔
      Except.ok (Checkpoint.newest? (ofRun b run)) = _
    rw [h]
  · show Except.ok ((Checkpoint.oldestFirst (ofRun a run)).map Checkpoint.id) = _ ↔
      Except.ok ((Checkpoint.oldestFirst (ofRun b run)).map Checkpoint.id) = _
    rw [h]

/-- **The store in memory is lawful.** -/
theorem store_lawful : store.Lawful where
  save_other {run other} hne c runs := by
    show store.Same other (save run c runs).2 runs
    unfold save
    split
    · exact .refl _ _ _
    · exact same_of_ofRun (ofRun_insert_of_ne _ hne)
  clear_other {run other} hne runs := same_of_ofRun (ofRun_insert_of_ne _ hne)
  save_load {run id c d runs} hne h := by
    change load run id runs = .ok d at h
    show load run id (save run c runs).2 = .ok d
    unfold save
    split
    · exact h
    -- the checkpoint is put behind the others, so that those are found before it
    · rw [load, ofRun_insert_self, List.find?_append]
      rw [load] at h
      split at h
      · rename_i hfound
        rw [hfound]
        exact h
      · contradiction
  clear_none run runs := by
    have hnone : ofRun (runs.insert run []) run = [] := ofRun_insert_self []
    refine ⟨fun id c => ?_, fun c => ?_, fun ids => ?_⟩
    · show load run id (runs.insert run []) ≠ _
      rw [load, hnone, List.find?_nil]
      nofun
    · show Except.ok (Checkpoint.newest? (ofRun (runs.insert run []) run)) ≠ _
      rw [hnone, Checkpoint.newest?, List.mergeSort_nil]
      nofun
    · show Except.ok ((Checkpoint.oldestFirst (ofRun (runs.insert run []) run)).map Checkpoint.id) =
        _ → _
      rw [hnone, Checkpoint.oldestFirst, List.mergeSort_nil]
      rintro ⟨⟩
      rfl

end MemoryStore

/-! ## In files -/

namespace FileStore

variable {s : FileStore} {t t' : Files} {run other id : String} {c d : Checkpoint}

/-- The file of an identifier is that of no other. -/
theorem fileName_ne (h : id ≠ other) : fileName id ≠ fileName other := by
  intro heq
  rw [fileName, fileName, String.append_assoc, String.append_assoc] at heq
  exact h ((String.append_left_inj _).1 heq)

/-! ### What is found -/

/-- A checkpoint that is loaded is in its file. -/
theorem load_eq_ok : s.load run id t = .ok c ↔ Checkpoint.checkId id = .ok () ∧
    Checkpoint.checkId run = .ok () ∧ ∃ content,
      t.find (s.runPlace run ++ [fileName id]) = .ok (.file content) ∧
        content.text?.bind Checkpoint.ofText? = some c := by
  unfold load
  cases hid : Checkpoint.checkId id with
  | error e => exact ⟨nofun, nofun⟩
  | ok _ =>
    cases hrun : Checkpoint.checkId run with
    | error e => exact ⟨nofun, nofun⟩
    | ok _ =>
      simp only [bind, Except.bind, true_and]
      cases hfind : t.find (s.runPlace run ++ [fileName id]) with
      | error o => cases o <;> exact ⟨nofun, nofun⟩
      | ok f =>
        cases f with
        | dir entries => exact ⟨nofun, nofun⟩
        | file content =>
          dsimp only
          cases hread : content.text?.bind Checkpoint.ofText? with
          | none =>
            refine ⟨nofun, ?_⟩
            rintro ⟨_, hc, hread'⟩
            injection hc with hc
            injection hc with hc
            rw [← hc, hread] at hread'
            contradiction
          | some d =>
            constructor
            · intro h
              injection h with h
              subst h
              exact ⟨content, rfl, hread⟩
            · rintro ⟨_, hc, hread'⟩
              injection hc with hc
              injection hc with hc
              rw [← hc, hread] at hread'
              injection hread' with hread'
              rw [hread']
              rfl

/-- Checkpoints that are read are in the directory of the run. -/
theorem readAll_eq_ok {cs : List Checkpoint} (hne : cs ≠ []) : s.readAll run t = .ok cs ↔
    Checkpoint.checkId run = .ok () ∧ ∃ entries,
      t.find (s.runPlace run) = .ok (.dir entries) ∧ cs = entries.filterMap checkpoint? := by
  unfold readAll
  cases hrun : Checkpoint.checkId run with
  | error e => exact ⟨nofun, nofun⟩
  | ok _ =>
    simp only [bind, Except.bind, true_and, Files.readDir]
    cases hfind : t.find (s.runPlace run) with
    | error o =>
      refine ⟨fun h => ?_, nofun⟩
      cases o with
      | missing =>
        injection h with h
        exact absurd h.symm hne
      | _ => contradiction
    | ok f =>
      cases f with
      | file content => exact ⟨nofun, nofun⟩
      | dir entries =>
        constructor
        · intro h
          injection h with h
          exact ⟨entries, rfl, h.symm⟩
        · rintro ⟨_, he, rfl⟩
          injection he with he
          injection he with he
          rw [he]
          rfl

theorem newest?_ne_nil {cs : List Checkpoint} (h : Checkpoint.newest? cs = some c) : cs ≠ [] := by
  rintro rfl
  rw [Checkpoint.newest?, List.mergeSort_nil] at h
  contradiction

theorem latest_eq_ok : s.store.latest run t = .ok (some c) ↔
    ∃ cs, cs ≠ [] ∧ s.readAll run t = .ok cs ∧ Checkpoint.newest? cs = some c := by
  show (s.readAll run t).map Checkpoint.newest? = _ ↔ _
  cases hread : s.readAll run t with
  | error e => exact ⟨nofun, nofun⟩
  | ok cs =>
    constructor
    · intro h
      injection h with h
      exact ⟨cs, newest?_ne_nil h, rfl, h⟩
    · rintro ⟨_, -, hcs, h⟩
      injection hcs with hcs
      rw [hcs]
      exact congrArg Except.ok h

theorem list_eq_ok {ids : List String} (hne : ids ≠ []) : s.store.list run t = .ok ids ↔
    ∃ cs, cs ≠ [] ∧ s.readAll run t = .ok cs ∧ (Checkpoint.oldestFirst cs).map Checkpoint.id = ids := by
  show (s.readAll run t).map (fun cs => (Checkpoint.oldestFirst cs).map Checkpoint.id) = _ ↔ _
  cases hread : s.readAll run t with
  | error e => exact ⟨nofun, nofun⟩
  | ok cs =>
    constructor
    · intro h
      injection h with h
      refine ⟨cs, ?_, rfl, h⟩
      rintro rfl
      have hnil : (Checkpoint.oldestFirst []).map Checkpoint.id = ids := h
      rw [Checkpoint.oldestFirst, List.mergeSort_nil] at hnil
      exact hne hnil.symm
    · rintro ⟨_, -, hcs, h⟩
      injection hcs with hcs
      rw [hcs]
      exact congrArg Except.ok h

/-- **All that is found of a run is found in its directory.** -/
theorem same_of_find {a b : Files}
    (h : ∀ f, a.find (s.runPlace run) = .ok f ↔ b.find (s.runPlace run) = .ok f) :
    s.store.Same run a b := by
  have hfile : ∀ name content, a.find (s.runPlace run ++ [name]) = .ok (.file content) ↔
      b.find (s.runPlace run ++ [name]) = .ok (.file content) := by
    intro name content
    rw [Files.find_append, Files.find_append]
    have hbind : ∀ x : Except Obstacle Files, (x.bind fun f => f.find [name]) = .ok (.file content) ↔
        ∃ f, x = .ok f ∧ f.find [name] = .ok (.file content) := by
      intro x
      cases x with
      | error o => exact ⟨nofun, nofun⟩
      | ok f => exact ⟨fun hf => ⟨f, rfl, hf⟩, fun ⟨g, hg, hf⟩ => by injection hg with hg; exact hg ▸ hf⟩
    rw [hbind, hbind]
    simp only [h]
  have hread : ∀ cs, cs ≠ [] → (s.readAll run a = .ok cs ↔ s.readAll run b = .ok cs) := by
    intro cs hne
    rw [readAll_eq_ok hne, readAll_eq_ok hne]
    simp only [h]
  refine ⟨fun id c => ?_, fun c => ?_, fun ids hne => ?_⟩
  · show s.load run id a = _ ↔ s.load run id b = _
    rw [load_eq_ok, load_eq_ok]
    simp only [hfile]
  · rw [latest_eq_ok, latest_eq_ok]
    exact exists_congr fun cs => and_congr_right fun hcs => by rw [hread cs hcs]
  · rw [list_eq_ok hne, list_eq_ok hne]
    exact exists_congr fun cs => and_congr_right fun hcs => by rw [hread cs hcs]

/-- **Where there is no directory of a run**, nothing is found of it. -/
theorem hasNone_of_find (h : Checkpoint.checkId run = .ok () →
    ∀ entries, t.find (s.runPlace run) ≠ .ok (.dir entries)) : s.store.HasNone run t := by
  have hread : ∀ cs, cs ≠ [] → s.readAll run t ≠ .ok cs := by
    intro cs hne hcs
    obtain ⟨hrun, entries, hfind, -⟩ := (readAll_eq_ok hne).1 hcs
    exact h hrun entries hfind
  refine ⟨fun id c hc => ?_, fun c hc => ?_, fun ids hids => ?_⟩
  · obtain ⟨-, hrun, content, hfind, -⟩ := load_eq_ok.1 hc
    rw [Files.find_append] at hfind
    cases hdir : t.find (s.runPlace run) with
    | error o => rw [hdir] at hfind; contradiction
    | ok f =>
      rw [hdir] at hfind
      obtain ⟨entries, -, rfl, -⟩ := Files.find_cons_ok hfind
      exact h hrun entries hdir
  · obtain ⟨cs, hne, hcs, -⟩ := latest_eq_ok.1 hc
    exact hread cs hne hcs
  · by_cases hne : ids = []
    · exact hne
    · obtain ⟨cs, hcs, hids, -⟩ := (list_eq_ok hne).1 hids
      exact absurd hids (hread cs hcs)

/-! ### What is changed -/

/-- **What saving does** to the tree: nothing, or it makes the directory of the run, and perhaps writes
the file in it. -/
theorem save_cases (run : String) (c : Checkpoint) (t : Files) : (s.save run c t).2 = t ∨
    ∃ made, t.makeDirs (s.runPlace run) = .ok made ∧ ((s.save run c t).2 = made ∨
      made.writeFile (s.runPlace run ++ [fileName c.id]) (.text c.text) = .ok (s.save run c t).2) := by
  unfold save
  split
  · exact .inl rfl
  · exact .inl rfl
  · split
    · exact .inl rfl
    · rename_i made hmade
      refine .inr ⟨made, hmade, ?_⟩
      split
      · exact .inl rfl
      · split
        · exact .inl rfl
        · rename_i written hwritten
          exact .inr hwritten

/-- **The store of files is lawful.** -/
theorem store_lawful (s : FileStore) : s.store.Lawful where
  save_other {run other} hne c t := by
    refine same_of_find fun f => ?_
    show (s.save run c t).2.find (s.place ++ [other]) = _ ↔ t.find (s.place ++ [other]) = _
    obtain heq | ⟨made, hmade, heq | hwritten⟩ := s.save_cases run c t
    · rw [heq]
    · rw [heq]
      exact Files.find_makeDirs_of_ne hne hmade f
    · rw [runPlace, List.append_assoc] at hwritten
      rw [Files.find_update_of_ne hne hwritten]
      exact Files.find_makeDirs_of_ne hne hmade f
  clear_other {run other} hne t := by
    refine same_of_find fun f => ?_
    show (s.clear run t).2.find (s.place ++ [other]) = _ ↔ t.find (s.place ++ [other]) = _
    unfold clear
    split
    · rfl
    · split
      · rename_i removed hremoved
        rw [Files.find_update_of_ne hne hremoved]
      · rfl
      · rfl
  save_load {run id c d t} hne h := by
    obtain ⟨hid, hrun, content, hfind, hread⟩ := load_eq_ok.1 h
    refine load_eq_ok.2 ⟨hid, hrun, content, ?_, hread⟩
    show (s.save run c t).2.find _ = _
    obtain heq | ⟨made, hmade, heq | hwritten⟩ := s.save_cases run c t
    · rw [heq]
      exact hfind
    · rw [heq]
      exact Files.find_makeDirs hmade hfind
    · rw [Files.find_update_of_ne (fileName_ne hne) hwritten]
      exact Files.find_makeDirs hmade hfind
  clear_none run t := by
    show s.store.HasNone run (s.clear run t).2
    -- a directory that were still there could have been removed
    have hkept : ∀ {o}, t.removeDir (s.runPlace run) = .error o →
        ∀ entries, t.find (s.runPlace run) ≠ .ok (.dir entries) := by
      intro o ho entries hfind
      obtain ⟨removed, hremoved⟩ := Files.removeDir_ok hfind
      rw [runPlace, hremoved] at ho
      contradiction
    unfold clear
    split
    · rename_i hrun
      refine hasNone_of_find fun hok => ?_
      rw [hrun] at hok
      contradiction
    · split
      · rename_i removed hremoved
        exact hasNone_of_find fun _ entries => Files.find_removeDir hremoved _
      · exact hasNone_of_find fun _ => hkept ‹_›
      · exact hasNone_of_find fun _ => hkept ‹_›

end FileStore

end Stepflow

/-!
## Operations on stores of checkpoints

A store is asked for one thing after the other. `Serves` says what it may answer where its state may
become another one of the same kind before every operation, as the order in which a directory lists its
entries may; `replies` is what it answers where the state stays as it is.
-/

namespace Stepflow.CheckpointStore

variable {σ : Type}

/-- What a store is asked for. -/
inductive Operation where
  /-- To keep a checkpoint of a run. -/
  | save (run : String) (c : Checkpoint)
  /-- The checkpoint of a run with an identifier. -/
  | load (run id : String)
  /-- The newest checkpoint of a run. -/
  | latest (run : String)
  /-- To remove all checkpoints of a run. -/
  | clear (run : String)
  /-- The identifiers of the checkpoints of a run. -/
  | list (run : String)

/-- What a store answers. -/
inductive Reply where
  /-- Whether something was done. -/
  | done (r : Except CheckpointError Unit)
  /-- A checkpoint. -/
  | found (r : Except CheckpointError Checkpoint)
  /-- The newest checkpoint, if there is one. -/
  | newest (r : Except CheckpointError (Option Checkpoint))
  /-- Identifiers. -/
  | ids (r : Except CheckpointError (List String))

namespace Operation

/-- The run that an operation is about. -/
def run : Operation → String
  | .save run _ | .load run _ | .latest run | .clear run | .list run => run

/-- The identifiers in an operation. -/
def ids : Operation → List String
  | .save run c => [run, c.id]
  | .load run id => [run, id]
  | .latest run | .clear run | .list run => [run]

theorem run_mem_ids (op : Operation) : op.run ∈ op.ids := by
  cases op <;> simp [run, ids]

/-- What an operation makes of the checkpoints that were saved for a run and not removed since. -/
def keep (run : String) (cs : List Checkpoint) : Operation → List Checkpoint
  | .save other c => if other = run then cs ++ [c] else cs
  | .clear other => if other = run then [] else cs
  | .load _ _ | .latest _ | .list _ => cs

end Operation

/-- **The checkpoints of a run** that were saved and not removed since, in the order of saving. -/
def kept (run : String) (ops : List Operation) : List Checkpoint :=
  ops.foldl (Operation.keep run) []

theorem kept_append (run : String) (ops : List Operation) (op : Operation) :
    kept run (ops ++ [op]) = op.keep run (kept run ops) := by
  rw [kept, List.foldl_append]
  rfl

variable (S : CheckpointStore σ) {R : σ → σ → Prop} {a b c : σ} {op : Operation} {ops more : List Operation}
  {rs : List Reply}

/-- What a store answers to an operation, and the state that it leaves behind. -/
def perform : Operation → σ → Reply × σ
  | .save run c, a => (.done (S.save run c a).1, (S.save run c a).2)
  | .load run id, a => (.found (S.load run id a), a)
  | .latest run, a => (.newest (S.latest run a), a)
  | .clear run, a => (.done (S.clear run a).1, (S.clear run a).2)
  | .list run, a => (.ids (S.list run a), a)

/-- What it answers to one operation after the other. -/
def replies : List Operation → σ → List Reply
  | [], _ => []
  | op :: ops, a => (S.perform op a).1 :: replies ops (S.perform op a).2

/-- The state that they leave behind. -/
def performAll (ops : List Operation) (a : σ) : σ := ops.foldl (fun a op => (S.perform op a).2) a

/-- **A store answers** to operations, where its state may become a related one before each of them and
after the last. -/
inductive Serves (R : σ → σ → Prop) : σ → List Operation → List Reply → σ → Prop
  /-- Nothing more is asked for. -/
  | nil {a b : σ} : R a b → Serves R a [] [] b
  /-- An operation is done in a related state. -/
  | cons {a b c : σ} {op : Operation} {ops : List Operation} {rs : List Reply} : R a b →
      Serves R (S.perform op b).2 ops rs c → Serves R a (op :: ops) ((S.perform op b).1 :: rs) c

variable {S}

namespace Serves

/-- **What every operation keeps** holds in the end, if related states share it. -/
theorem keeps {I : σ → Prop} (h : S.Serves R a ops rs b) (hR : ∀ a b, R a b → I a → I b)
    (hstep : ∀ op ∈ ops, ∀ a, I a → I (S.perform op a).2) (ha : I a) : I b := by
  induction h with
  | nil hab => exact hR _ _ hab ha
  | @cons a b c op ops rs hab _ ih =>
    exact ih (fun o ho => hstep o (List.mem_cons_of_mem _ ho))
      (hstep op List.mem_cons_self b (hR _ _ hab ha))

/-- A state may stay as it is. -/
theorem of_refl (hR : ∀ a, R a a) (ops : List Operation) (a : σ) :
    S.Serves R a ops (S.replies ops a) (S.performAll ops a) := by
  induction ops generalizing a with
  | nil => exact .nil (hR a)
  | cons op ops ih => exact .cons (hR a) (ih _)

end Serves

end Stepflow.CheckpointStore
