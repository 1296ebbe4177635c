import Stepflow.Proofs.Checkpoint.Performing

/-!
# Every run in its own directory

A store of files keeps every run to its own directory (`operation_confined`). An operation in which an
identifier is no plain name is refused before anything is asked of the disk. Any other asks for nothing
but the directory of its run and files directly in it, whatever the disk answers, and the runs have
directories apart from each other. So one operation after the other leaves alone what is outside the root
(`performAll_sameOutside`), and what is there of a run that none of them is about (`find_performAll_of_ne`).
-/

namespace Stepflow

open CheckpointStore

namespace CheckpointStore.Operation

/-- The answer that an operation fails. -/
def failed (e : CheckpointError) : Operation → Reply
  | .save _ _ | .clear _ => .done (.error e)
  | .load _ _ => .found (.error e)
  | .latest _ => .newest (.error e)
  | .list _ => .ids (.error e)

end CheckpointStore.Operation

namespace FileStore

open Files Script

variable {s : FileStore} {t : Files} {op : Operation} {run other id dir : String} {c : Checkpoint}
  {drawn : Nat} {workingDirectory rest : List String}

/-! ## What is asked for -/

theorem asksOnly_checking {α : Type} {p : DiskRequest → Prop}
    {next : DiskScript (Except CheckpointError α)} (h : next.AsksOnly p) :
    (checking id next).AsksOnly p := by
  unfold checking
  split
  · trivial
  · exact h

theorem isIn_filePath (hid : Checkpoint.isPlainId id = true) :
    DiskRequest.IsIn (s.runPath run) (s.filePath run id) := ⟨_, isName_fileName hid, rfl⟩

theorem isIn_scratchPath (hid : Checkpoint.isPlainId id = true) :
    DiskRequest.IsIn (s.runPath run) (s.scratchPath run id drawn) :=
  ⟨_, isName_scratchName hid drawn, rfl⟩

theorem asksOnly_giveUp (hid : Checkpoint.isPlainId id = true) (e : CheckpointError) :
    (s.giveUp run id drawn e).AsksOnly (DiskRequest.KeepsTo (s.runPath run)) := by
  refine AsksOnly.andThen (asksOnly_request.2 ?_) fun _ => trivial
  exact isIn_scratchPath hid

theorem asksOnly_putting (hid : Checkpoint.isPlainId c.id = true) :
    (s.putting drawn run c).AsksOnly (DiskRequest.KeepsTo (s.runPath run)) := by
  refine AsksOnly.andThen (asksOnly_request.2 ?_) fun written => ?_
  · exact isIn_scratchPath hid
  cases written with
  | error o => exact asksOnly_giveUp hid _
  | ok _ =>
    refine AsksOnly.andThen (asksOnly_request.2 ?_) fun renamed => ?_
    · exact ⟨isIn_scratchPath hid, isIn_filePath hid⟩
    cases renamed with
    | error o => exact asksOnly_giveUp hid _
    | ok _ => trivial

theorem asksOnly_saving (hid : Checkpoint.isPlainId c.id = true) :
    (s.saving drawn run c).AsksOnly (DiskRequest.KeepsTo (s.runPath run)) := by
  refine asksOnly_checking (asksOnly_checking ?_)
  refine AsksOnly.andThen (asksOnly_request.2 ?_) fun made => ?_
  · exact rfl
  cases made with
  | error o => trivial
  | ok _ => exact asksOnly_putting hid

theorem asksOnly_loading (hid : Checkpoint.isPlainId id = true) :
    (s.loading run id).AsksOnly (DiskRequest.KeepsTo (s.runPath run)) := by
  refine asksOnly_checking (asksOnly_checking ?_)
  refine AsksOnly.andThen (asksOnly_request.2 ?_) fun content => ?_
  · exact isIn_filePath hid
  split
  · trivial
  · trivial
  · split <;> trivial

/-- The names that a directory lists are ordinary ones. -/
theorem asksOnly_readingEach (names : List FilePath.Name) :
    (readingEach dir names).AsksOnly (DiskRequest.KeepsTo dir) := by
  induction names with
  | nil => trivial
  | cons name rest ih =>
    rw [readingEach]
    split
    · refine AsksOnly.andThen (asksOnly_request.2 ?_) fun _ => ih.andThen fun _ => trivial
      exact ⟨name.text, name.isName, rfl⟩
    · exact ih

theorem asksOnly_readingAll (s : FileStore) (run : String) :
    (s.readingAll run).AsksOnly (DiskRequest.KeepsTo (s.runPath run)) := by
  refine asksOnly_checking (AsksOnly.andThen (asksOnly_request.2 ?_) fun listing => ?_)
  · exact rfl
  split
  · trivial
  · trivial
  · refine AsksOnly.andThen (asksOnly_readingEach _) fun _ => ?_
    split <;> trivial

theorem asksOnly_clearing (s : FileStore) (run : String) :
    (s.clearing run).AsksOnly (DiskRequest.KeepsTo (s.runPath run)) := by
  refine asksOnly_checking (AsksOnly.andThen (asksOnly_request.2 ?_) fun removed => ?_)
  · exact rfl
  split <;> trivial

/-- **An operation asks for its run alone.** -/
theorem asksOnly_script (hplain : ∀ id ∈ op.ids, Checkpoint.isPlainId id = true) :
    (s.script drawn op).AsksOnly (DiskRequest.KeepsTo (s.runPath op.run)) := by
  cases op with
  | save run c => exact (asksOnly_saving (hplain c.id (by simp [Operation.ids]))).mapResult
  | load run id => exact (asksOnly_loading (hplain id (by simp [Operation.ids]))).mapResult
  | latest run => exact (asksOnly_readingAll s run).mapResult
  | clear run => exact (asksOnly_clearing s run).mapResult
  | list run => exact (asksOnly_readingAll s run).mapResult

/-! ## What is changed -/

theorem sameOutside_save (s : FileStore) (run : String) (c : Checkpoint) (t : Files) :
    SameOutside (s.runPlace run) t (s.save run c t).2 := by
  obtain heq | ⟨made, hmade, heq | hwritten⟩ := s.save_cases run c t
  · rw [heq]
    exact .refl _ t
  · rw [heq]
    exact sameOutside_makeDirs hmade
  · exact (sameOutside_makeDirs hmade).trans (sameOutside_update hwritten)

theorem sameOutside_clear (s : FileStore) (run : String) (t : Files) :
    SameOutside (s.runPlace run) t (s.clear run t).2 := by
  unfold clear
  split
  · exact .refl _ t
  · split
    · rename_i removed hremoved
      rw [← List.append_nil (s.runPlace run)] at hremoved
      exact sameOutside_update hremoved
    · exact .refl _ t
    · exact .refl _ t

/-- **An operation changes nothing outside the directory of its run.** -/
theorem perform_sameOutside (s : FileStore) (op : Operation) (t : Files) :
    SameOutside (s.runPlace op.run) t (s.store.perform op t).2 := by
  cases op with
  | save run c => exact s.sameOutside_save run c t
  | clear run => exact s.sameOutside_clear run t
  | load run id => exact .refl _ t
  | latest run => exact .refl _ t
  | list run => exact .refl _ t

/-- **Nor do any operations, of whatever runs, outside the root.** -/
theorem performAll_sameOutside (s : FileStore) (ops : List Operation) (t : Files) :
    SameOutside s.place t (s.store.performAll ops t) := by
  induction ops generalizing t with
  | nil => exact .refl _ t
  | cons op ops ih => exact (s.perform_sameOutside op t).mono.trans (ih _)

/-- What is found of another run stays as it is. -/
theorem find_perform_of_ne (hne : run ≠ op.run) (f : Files) :
    (s.store.perform op t).2.find (s.runPlace run ++ rest) = .ok f ↔
      t.find (s.runPlace run ++ rest) = .ok f := by
  cases op with
  | save other c => exact find_save_of_ne hne.symm f
  | clear other =>
    have hsame : (s.clear other t).2.find (s.runPlace run ++ rest) = t.find (s.runPlace run ++ rest) :=
      find_clear_of_ne hne.symm
    exact Eq.congr_left hsame
  | load other id => exact Iff.rfl
  | latest other => exact Iff.rfl
  | list other => exact Iff.rfl

theorem find_performAll_of_ne {ops : List Operation} (hne : ∀ op ∈ ops, run ≠ op.run) (f : Files) :
    (s.store.performAll ops t).find (s.runPlace run ++ rest) = .ok f ↔
      t.find (s.runPlace run ++ rest) = .ok f := by
  induction ops generalizing t with
  | nil => exact Iff.rfl
  | cons op ops ih =>
    exact (ih fun o ho => hne o (List.mem_cons_of_mem _ ho)).trans
      (find_perform_of_ne (hne op List.mem_cons_self) f)

/-! ## Runs apart from each other -/

theorem runPath_ne (hrun : Checkpoint.isPlainId run = true) (hother : Checkpoint.isPlainId other = true)
    (hne : run ≠ other) : s.runPath run ≠ s.runPath other :=
  FilePath.join_ne (Checkpoint.isName_of_isPlainId hrun) (Checkpoint.isName_of_isPlainId hother) hne

theorem not_runPlace_prefix (s : FileStore) (hne : run ≠ other) : ¬ s.runPlace run <+: s.runPlace other := by
  intro h
  rw [runPlace, runPlace, List.prefix_append_right_inj, List.cons_prefix_cons] at h
  exact hne h.1

/-! ## Refusal -/

theorem save_of_not_plain (hid : Checkpoint.isPlainId c.id = false) :
    s.save run c t = (.error (.invalidId c.id), t) := by
  rw [FileStore.save, checkId_of_not_plain hid]

theorem save_of_not_plain_run (hid : Checkpoint.isPlainId c.id = true)
    (hrun : Checkpoint.isPlainId run = false) : s.save run c t = (.error (.invalidId run), t) := by
  rw [FileStore.save, Checkpoint.checkId_eq_ok.2 hid, checkId_of_not_plain hrun]

theorem load_of_not_plain (hid : Checkpoint.isPlainId id = false) :
    s.load run id t = .error (.invalidId id) := by
  rw [FileStore.load, checkId_of_not_plain hid]
  rfl

theorem load_of_not_plain_run (hid : Checkpoint.isPlainId id = true)
    (hrun : Checkpoint.isPlainId run = false) : s.load run id t = .error (.invalidId run) := by
  rw [FileStore.load, Checkpoint.checkId_eq_ok.2 hid, checkId_of_not_plain hrun]
  rfl

theorem clear_of_not_plain (hrun : Checkpoint.isPlainId run = false) :
    s.clear run t = (.error (.invalidId run), t) := by
  rw [FileStore.clear, checkId_of_not_plain hrun]

theorem readAll_of_not_plain (hrun : Checkpoint.isPlainId run = false) :
    s.readAll run t = .error (.invalidId run) := by
  rw [readAll, checkId_of_not_plain hrun]
  rfl

/-- **An operation is refused** for an identifier: nothing is asked of the disk, and nothing is changed. -/
structure Refuses (s : FileStore) (op : Operation) (id : String) : Prop where
  /-- No request is made before the answer. -/
  script : ∀ drawn, s.script drawn op = .done (op.failed (.invalidId id))
  /-- The operation as a whole says so too, and leaves the tree alone. -/
  perform : ∀ t, s.store.perform op t = (op.failed (.invalidId id), t)

/-- The identifier of a checkpoint is looked at first, and then that of the run. -/
theorem refuses_save (hid : Checkpoint.isPlainId c.id = false) : s.Refuses (.save run c) c.id where
  script drawn := by
    rw [FileStore.script, saving, checking_of_not_plain hid]
    rfl
  perform t := by
    show (Reply.done (s.save run c t).1, (s.save run c t).2) = _
    rw [save_of_not_plain hid]
    rfl

theorem refuses_save_run (hid : Checkpoint.isPlainId c.id = true)
    (hrun : Checkpoint.isPlainId run = false) : s.Refuses (.save run c) run where
  script drawn := by
    rw [FileStore.script, saving, checking_of_plain hid, checking_of_not_plain hrun]
    rfl
  perform t := by
    show (Reply.done (s.save run c t).1, (s.save run c t).2) = _
    rw [save_of_not_plain_run hid hrun]
    rfl

theorem refuses_load (hid : Checkpoint.isPlainId id = false) : s.Refuses (.load run id) id where
  script drawn := by
    rw [FileStore.script, loading, checking_of_not_plain hid]
    rfl
  perform t := congrArg (fun r => (Reply.found r, t)) (load_of_not_plain hid)

theorem refuses_load_run (hid : Checkpoint.isPlainId id = true)
    (hrun : Checkpoint.isPlainId run = false) : s.Refuses (.load run id) run where
  script drawn := by
    rw [FileStore.script, loading, checking_of_plain hid, checking_of_not_plain hrun]
    rfl
  perform t := congrArg (fun r => (Reply.found r, t)) (load_of_not_plain_run hid hrun)

theorem refuses_clear (hrun : Checkpoint.isPlainId run = false) : s.Refuses (.clear run) run where
  script drawn := by
    rw [FileStore.script, clearing, checking_of_not_plain hrun]
    rfl
  perform t := by
    show (Reply.done (s.clear run t).1, (s.clear run t).2) = _
    rw [clear_of_not_plain hrun]
    rfl

theorem refuses_latest (hrun : Checkpoint.isPlainId run = false) : s.Refuses (.latest run) run where
  script drawn := by
    rw [FileStore.script, readingAll, checking_of_not_plain hrun]
    rfl
  perform t := by
    show (Reply.newest ((s.readAll run t).map _), t) = _
    rw [readAll_of_not_plain hrun]
    rfl

theorem refuses_list (hrun : Checkpoint.isPlainId run = false) : s.Refuses (.list run) run where
  script drawn := by
    rw [FileStore.script, readingAll, checking_of_not_plain hrun]
    rfl
  perform t := by
    show (Reply.ids ((s.readAll run t).map _), t) = _
    rw [readAll_of_not_plain hrun]
    rfl

/-- **Where an identifier is no plain name** the operation is refused, for this one or another. -/
theorem refuses_of_not_plain (s : FileStore) (h : ∃ id ∈ op.ids, Checkpoint.isPlainId id = false) :
    ∃ id ∈ op.ids, Checkpoint.isPlainId id = false ∧ s.Refuses op id := by
  cases op with
  | save run c =>
    by_cases hid : Checkpoint.isPlainId c.id = true
    · have hrun : Checkpoint.isPlainId run = false := by simpa [Operation.ids, hid] using h
      exact ⟨run, by simp [Operation.ids], hrun, refuses_save_run hid hrun⟩
    · have hid := Bool.eq_false_iff.2 hid
      exact ⟨c.id, by simp [Operation.ids], hid, refuses_save hid⟩
  | load run id =>
    by_cases hid : Checkpoint.isPlainId id = true
    · have hrun : Checkpoint.isPlainId run = false := by simpa [Operation.ids, hid] using h
      exact ⟨run, by simp [Operation.ids], hrun, refuses_load_run hid hrun⟩
    · have hid := Bool.eq_false_iff.2 hid
      exact ⟨id, by simp [Operation.ids], hid, refuses_load hid⟩
  | latest run =>
    have hrun : Checkpoint.isPlainId run = false := by simpa [Operation.ids] using h
    exact ⟨run, by simp [Operation.ids], hrun, refuses_latest hrun⟩
  | clear run =>
    have hrun : Checkpoint.isPlainId run = false := by simpa [Operation.ids] using h
    exact ⟨run, by simp [Operation.ids], hrun, refuses_clear hrun⟩
  | list run =>
    have hrun : Checkpoint.isPlainId run = false := by simpa [Operation.ids] using h
    exact ⟨run, by simp [Operation.ids], hrun, refuses_list hrun⟩

/-! ## Confinement -/

/-- The store at a path, for a process with a working directory. -/
def rooted (workingDirectory : List String) (path : String) : FileStore :=
  ⟨path, FilePath.names workingDirectory path⟩

/-- **An operation is confined** to the directory of its run. -/
structure Confined (s : FileStore) (workingDirectory : List String) (op : Operation) : Prop where
  /-- Runs and files are named by one ordinary component of a path each. -/
  component : ∀ id ∈ op.ids, FilePath.isName id = true ∧ FilePath.isName (fileName id) = true ∧
    ∀ drawn, FilePath.isName (scratchName id drawn) = true
  /-- The directory of the run is the one of its name in the root. -/
  inRoot : FilePath.names workingDirectory (s.runPath op.run) =
    FilePath.names workingDirectory s.path ++ [op.run]
  /-- Whatever the disk answers, only this directory is asked for, and files directly in it. -/
  asks : ∀ drawn, (s.script drawn op).AsksOnly (DiskRequest.KeepsTo (s.runPath op.run))
  /-- Such a file is the one of its name in this directory. -/
  inDirectory : ∀ path, DiskRequest.IsIn (s.runPath op.run) path → ∃ name, FilePath.isName name = true ∧
    FilePath.names workingDirectory path = FilePath.names workingDirectory (s.runPath op.run) ++ [name]
  /-- On a disk that is left alone by others, what is asked for comes to the operation. -/
  comes : ∀ drawn t, (∀ entries, t.find (s.runPlace op.run) = .ok (.dir entries) → Orderly entries) →
    s.Fresh drawn t op → ∃ r,
      DiskScript.perform workingDirectory (s.script drawn op) t = (r, (s.store.perform op t).2) ∧
        r.withoutPath = (s.store.perform op t).1.withoutPath
  /-- A disk is the same outside the directory. -/
  disk : ∀ drawn t, SameOutside (s.runPlace op.run) t
    (DiskScript.perform workingDirectory (s.script drawn op) t).2
  /-- So is a tree after the operation as a whole, and so the same outside the root. -/
  tree : ∀ t, SameOutside (s.runPlace op.run) t (s.store.perform op t).2
  /-- Another run has another directory, and neither is in the other. -/
  apart : ∀ run, Checkpoint.isPlainId run = true → run ≠ op.run → s.runPath run ≠ s.runPath op.run ∧
    ¬ s.runPlace run <+: s.runPlace op.run ∧ ¬ s.runPlace op.run <+: s.runPlace run
  /-- Nothing that is found of another run is changed. -/
  others : ∀ t run rest f, run ≠ op.run → ((s.store.perform op t).2.find (s.runPlace run ++ rest) = .ok f ↔
    t.find (s.runPlace run ++ rest) = .ok f)

theorem confined_of_plain (hs : s.IsAt workingDirectory)
    (hplain : ∀ id ∈ op.ids, Checkpoint.isPlainId id = true) : s.Confined workingDirectory op := by
  have hrun := hplain op.run op.run_mem_ids
  have hnames := names_runPath hs hrun
  exact {
    component := fun id hid => ⟨Checkpoint.isName_of_isPlainId (hplain id hid),
      isName_fileName (hplain id hid), isName_scratchName (hplain id hid)⟩
    inRoot := hnames.trans (congrArg (· ++ [op.run]) hs)
    asks := fun drawn => asksOnly_script hplain
    inDirectory := fun path hpath => hpath.names_eq workingDirectory
    comes := fun drawn t horderly hfresh => perform_script hs hplain horderly hfresh
    disk := fun drawn t => hnames ▸ DiskScript.perform_sameOutside (asksOnly_script hplain)
    tree := s.perform_sameOutside op
    apart := fun run hplain hne => ⟨runPath_ne hplain hrun hne, s.not_runPlace_prefix hne,
      s.not_runPlace_prefix hne.symm⟩
    others := fun t run rest f hne => find_perform_of_ne hne f }

/-- **Every operation is confined or refused**: either an identifier in it is no plain name, and it is
refused for one such, before anything is asked of the disk; or it is confined to the directory of its
run. -/
theorem operation_confined (workingDirectory : List String) (path : String) (op : Operation) :
    (∃ id ∈ op.ids, Checkpoint.isPlainId id = false ∧ (rooted workingDirectory path).Refuses op id) ∨
      (∀ id ∈ op.ids, Checkpoint.isPlainId id = true) ∧
        (rooted workingDirectory path).Confined workingDirectory op := by
  by_cases hplain : ∀ id ∈ op.ids, Checkpoint.isPlainId id = true
  · exact .inr ⟨hplain, confined_of_plain rfl hplain⟩
  · refine .inl (refuses_of_not_plain _ ?_)
    simpa using hplain

/-- Two runs with a checkpoint each, beside a file of another kind. -/
def neighbours : Files := .dir [("etc", .dir [("passwd", .file (.text "root"))]),
  ("srv", .dir [("runs", .dir [("a", .dir [("1.json", .file (.text "x"))]),
    ("b", .dir [("1.json", .file (.text "y"))])])])]

/-- A checkpoint to be saved beside the first. -/
def second : Checkpoint := ⟨"2", "w", "", [], ⟨0, 0⟩⟩

/-- Of the neighbours, clearing the one removes neither what the other has saved nor what is outside the
root, and what saving asks for comes to the checkpoint that is saved. -/
theorem operation_confined_neighbours :
    (((rooted ["srv"] "runs").store.perform (.clear "a") neighbours).2.find ["srv", "runs", "a"] =
        .error .missing ∧
      ((rooted ["srv"] "runs").store.perform (.clear "a") neighbours).2.find
        ["srv", "runs", "b", "1.json"] = .ok (.file (.text "y")) ∧
      ((rooted ["srv"] "runs").store.perform (.clear "a") neighbours).2.find ["etc", "passwd"] =
        .ok (.file (.text "root"))) ∧
    ∃ r, DiskScript.perform ["srv"] ((rooted ["srv"] "runs").script 7 (.save "a" second)) neighbours =
      (r, ((rooted ["srv"] "runs").store.perform (.save "a" second) neighbours).2) := by
  constructor
  · obtain ⟨id, hid, hbad, -⟩ | ⟨-, h⟩ := operation_confined ["srv"] "runs" (.clear "a")
    · obtain rfl : id = "a" := by simpa [Operation.ids] using hid
      exact absurd hbad (by decide)
    · refine ⟨rfl, (h.others neighbours "b" ["1.json"] _ (by decide)).2 rfl, ?_⟩
      exact ((h.tree neighbours).file ["etc", "passwd"] _ (by decide)).2 rfl
  · obtain ⟨id, hid, hbad, -⟩ | ⟨-, h⟩ := operation_confined ["srv"] "runs" (.save "a" second)
    · have hplain : ∀ id ∈ ["a", "2"], Checkpoint.isPlainId id = true := by decide
      rw [hplain id hid] at hbad
      contradiction
    · have hdir : neighbours.find ["srv", "runs", "a"] = .ok (.dir [("1.json", .file (.text "x"))]) :=
        rfl
      have horderly : ∀ entries, neighbours.find ["srv", "runs", "a"] = .ok (.dir entries) →
          Orderly entries := fun entries hfound => by
        obtain rfl : _ = entries := by simpa using hdir.symm.trans hfound
        exact ⟨by decide, by decide, by decide⟩
      have hfresh : (rooted ["srv"] "runs").Fresh 7 neighbours (.save "a" second) := fun own hfound => by
        obtain rfl : _ = own := by simpa using hdir.symm.trans hfound
        rfl
      obtain ⟨r, hr, -⟩ := h.comes 7 neighbours horderly hfresh
      exact ⟨r, hr⟩

end FileStore

end Stepflow
