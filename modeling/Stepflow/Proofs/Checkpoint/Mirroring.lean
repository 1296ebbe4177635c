import Stepflow.Proofs.Checkpoint.Filing
import Stepflow.Proofs.Checkpoint.Store

/-!
# The directory of a run and its list in memory

The directory of a run mirrors the list that is kept in memory: it has one file for each checkpoint of
it, in any order. What is asked for does not depend on the order, so an operation that both stores accept
is answered alike and keeps them alike (`Mirrors.perform`).
-/

namespace Stepflow

open CheckpointStore Files

variable {s : FileStore} {t t' u : Files} {run other id : String} {c d : Checkpoint}
  {cs : List Checkpoint} {runs : MemoryStore.Runs} {op : Operation}

/-- **A checkpoint that fits** a directory: its identifier is a plain name and not too long, and its text
is read as it was. -/
structure Checkpoint.Fits (c : Checkpoint) : Prop where
  /-- The identifier is a plain name. -/
  plain : Checkpoint.checkId c.id = .ok ()
  /-- It is not too long. -/
  short : c.id.utf8ByteSize + FileStore.scratchLength ≤ nameLimit
  /-- The text is read as it was. -/
  read : Checkpoint.ofText? c.text = some c

/-- **Checkpoints that a directory can hold**: each fits, and no two have the same identifier. -/
structure Checkpoint.Sound (cs : List Checkpoint) : Prop where
  /-- Each of them fits. -/
  fits : ∀ c ∈ cs, c.Fits
  /-- No two have the same identifier. -/
  distinct : (cs.map Checkpoint.id).Nodup

namespace FileStore

/-- **The directory of a run holds** the files of some checkpoints and nothing else; where there are none,
it may be missing. -/
def Stores (s : FileStore) (run : String) (cs : List Checkpoint) (t : Files) : Prop :=
  ∃ own, (t.find (s.runPlace run) = .ok (.dir own) ∨
    t.find (s.runPlace run) = .error .missing ∧ own = []) ∧ own.Perm (cs.map entryOf)

/-! ## Entries -/

/-- Different identifiers make different names. -/
theorem names_nodup (h : (cs.map Checkpoint.id).Nodup) : ((cs.map entryOf).map Prod.fst).Nodup := by
  have hnames : (cs.map entryOf).map Prod.fst = (cs.map Checkpoint.id).map fileName := by
    simp [entryOf, Function.comp_def]
  rw [hnames]
  exact List.Nodup.map (fun id other heq => by_contra fun hne => fileName_ne hne heq) h

variable {own : List (String × Files)}

theorem lookup_own (hs : Checkpoint.Sound cs) (hp : own.Perm (cs.map entryOf)) (hc : c ∈ cs) :
    own.lookup (fileName c.id) = some (.file (.text c.text)) :=
  lookup_of_mem ((hp.map Prod.fst).nodup_iff.2 (names_nodup hs.distinct))
    (hp.mem_iff.2 (List.mem_map_of_mem hc))

theorem lookup_own_eq_none (hp : own.Perm (cs.map entryOf)) (hid : id ∉ cs.map Checkpoint.id) :
    own.lookup (fileName id) = none := by
  rw [List.lookup_eq_none_iff]
  intro e he
  obtain ⟨c, hc, rfl⟩ := List.mem_map.1 (hp.mem_iff.1 he)
  have hne : id ≠ c.id := fun h => hid (h ▸ List.mem_map_of_mem hc)
  simpa [entryOf] using fileName_ne hne

/-! ## Reading -/

namespace Stores

/-- All checkpoints of the run are read, in some order. -/
theorem readAll (h : s.Stores run cs t) (hs : Checkpoint.Sound cs)
    (hrun : Checkpoint.checkId run = .ok ()) : ∃ read, s.readAll run t = .ok read ∧ read.Perm cs := by
  obtain ⟨own, hown, hp⟩ := h
  have hread : (own.filterMap checkpoint?).Perm cs := by
    have hall : (cs.map entryOf).filterMap checkpoint? = cs := by
      rw [List.filterMap_map]
      refine (List.filterMap_congr fun c hc => ?_).trans List.filterMap_some
      exact (checkpoint?_entryOf (hs.fits c hc).plain).trans (hs.fits c hc).read
    exact hall ▸ hp.filterMap checkpoint?
  refine ⟨_, ?_, hread⟩
  unfold FileStore.readAll Files.readDir
  rw [hrun]
  obtain hfind | ⟨hfind, rfl⟩ := hown
  · rw [hfind]
    rfl
  · rw [hfind]
    rfl

/-- The newest is the last of those in order. -/
theorem latest (h : s.Stores run cs t) (hs : Checkpoint.Sound cs)
    (hrun : Checkpoint.checkId run = .ok ()) :
    s.store.latest run t = .ok (Checkpoint.oldestFirst cs).getLast? := by
  obtain ⟨read, hread, hp⟩ := h.readAll hs hrun
  have hn : (read.map Checkpoint.id).Nodup := (hp.map _).nodup_iff.2 hs.distinct
  rw [latest_of_readAll hread, Checkpoint.newest?_eq_getLast? hn, Checkpoint.oldestFirst_eq_of_perm hn hp]

/-- All are listed in order. -/
theorem list (h : s.Stores run cs t) (hs : Checkpoint.Sound cs)
    (hrun : Checkpoint.checkId run = .ok ()) :
    s.store.list run t = .ok ((Checkpoint.oldestFirst cs).map Checkpoint.id) := by
  obtain ⟨read, hread, hp⟩ := h.readAll hs hrun
  rw [list_of_readAll hread, Checkpoint.oldestFirst_eq_of_perm ((hp.map _).nodup_iff.2 hs.distinct) hp]

/-- Each is loaded. -/
theorem load_of_mem (h : s.Stores run cs t) (hs : Checkpoint.Sound cs)
    (hrun : Checkpoint.checkId run = .ok ()) (hc : c ∈ cs) : s.load run c.id t = .ok c := by
  obtain ⟨own, hown, hp⟩ := h
  have hfits := hs.fits c hc
  have hlookup := lookup_own hs hp hc
  obtain hfind | ⟨-, rfl⟩ := hown
  · refine load_eq_ok.2 ⟨hfits.plain, hrun, _, ?_, (bind_text _ _).trans hfits.read⟩
    rw [find_in_dir hfind (isLongName_fileName hfits.short), hlookup]
  · contradiction

/-- Nothing else is found. -/
theorem load_of_not_mem (h : s.Stores run cs t) (hrun : Checkpoint.checkId run = .ok ())
    (hplain : Checkpoint.checkId id = .ok ()) (hshort : isLongName (fileName id) = false)
    (hid : id ∉ cs.map Checkpoint.id) : s.load run id t = .error (.notFound run (some id)) := by
  obtain ⟨own, hown, hp⟩ := h
  have hmissing : t.find (s.runPlace run ++ [fileName id]) = .error .missing := by
    obtain hfind | ⟨hfind, -⟩ := hown
    · rw [find_in_dir hfind hshort, lookup_own_eq_none hp hid]
    · rw [find_append, hfind]
      rfl
  unfold load
  rw [hplain, hrun, hmissing]
  rfl

/-- In what order entries are listed does not matter. -/
theorem alike (h : s.Stores run cs t) (hs : Checkpoint.Sound cs) (ha : t.Alike u) :
    s.Stores run cs u := by
  obtain ⟨own, hown, hp⟩ := h
  obtain hfind | ⟨hfind, rfl⟩ := hown
  · obtain ⟨listed, hlisted, hnames⟩ := ha.dir _ _ hfind
    refine ⟨listed, .inl hlisted, perm_of_names hlisted (hnames.trans (hp.map Prod.fst))
      (names_nodup hs.distinct) fun e he => ?_⟩
    obtain ⟨c, hc, rfl⟩ := List.mem_map.1 he
    refine (ha.file _ _).1 ?_
    rw [entryOf, find_in_dir hfind (isLongName_fileName (hs.fits c hc).short), lookup_own hs hp hc]
  · exact ⟨[], .inr ⟨(ha.error _ _).1 hfind, rfl⟩, hp⟩

theorem of_find (h : s.Stores run cs t) (hfind : u.find (s.runPlace run) = t.find (s.runPlace run)) :
    s.Stores run cs u := by
  obtain ⟨own, hown, hp⟩ := h
  exact ⟨own, hfind ▸ hown, hp⟩

end Stores

/-! ## Saving and clearing -/

/-- Nothing but the directory of a run becomes another one. -/
def SameElsewhere (s : FileStore) (run : String) (t t' : Files) : Prop :=
  ∀ other, run ≠ other → t'.find (s.runPlace other) = t.find (s.runPlace other)

theorem root_of_find {place : List String} {name : String} {f : Files}
    (h : t.find (place ++ [name]) = .ok f) : ∃ entries, t.find place = .ok (.dir entries) := by
  rw [find_append] at h
  cases hplace : t.find place with
  | error o =>
    rw [hplace] at h
    contradiction
  | ok g =>
    rw [hplace] at h
    obtain ⟨entries, -, rfl, -⟩ := find_cons_ok h
    exact ⟨entries, rfl⟩

namespace Stores

variable {entries : List (String × Files)}

/-- A checkpoint with an identifier of its own is put to the others. -/
theorem save (h : s.Stores run cs t) (hroot : t.find s.place = .ok (.dir entries))
    (hrun : Checkpoint.checkId run = .ok ()) (hlong : isLongName run = false) (hc : c.Fits)
    (hid : c.id ∉ cs.map Checkpoint.id) : ∃ t', s.save run c t = (.ok (), t') ∧
      s.Stores run (cs ++ [c]) t' ∧ s.SameElsewhere run t t' ∧
      ∃ entries, t'.find s.place = .ok (.dir entries) := by
  obtain ⟨own, hown, hp⟩ := h
  obtain ⟨t', hsave, hdir, hothers⟩ :=
    save_in_dir hroot hc.plain hrun hlong hc.short hown (lookup_own_eq_none hp hid)
  refine ⟨t', hsave, ⟨_, .inl hdir, ?_⟩, fun other hne => hothers other [] hne, root_of_find hdir⟩
  rw [List.map_append]
  exact hp.append_right _

/-- A run that is cleared has no directory. -/
theorem clear (h : s.Stores run cs t) (hroot : t.find s.place = .ok (.dir entries))
    (hrun : Checkpoint.checkId run = .ok ()) (hlong : isLongName run = false) :
    ∃ t', s.clear run t = (.ok (), t') ∧ s.Stores run [] t' ∧ s.SameElsewhere run t t' ∧
      ∃ entries, t'.find s.place = .ok (.dir entries) := by
  obtain ⟨own, hfind | ⟨hfind, rfl⟩, hp⟩ := h
  · obtain ⟨t', hremoved⟩ := removeDir_ok hfind
    obtain ⟨es, g, -, -, hg, hdir⟩ := find_update_dir hremoved
    obtain rfl : none = g := by
      split at hg
      · contradiction
      · contradiction
      · exact Except.ok.inj hg
    refine ⟨t', ?_, ⟨[], .inr ⟨?_, rfl⟩, .refl _⟩, fun other hne => find_update_of_ne hne hremoved,
      _, hdir⟩
    · unfold FileStore.clear
      rw [hrun, runPlace, hremoved]
    · rw [runPlace, find_in_dir hdir hlong, setEntry, lookup_dropEntry_self]
  · have hlookup : entries.lookup run = none := by
      rw [runPlace, find_in_dir hroot hlong] at hfind
      split at hfind
      · assumption
      · contradiction
    have hremoved : t.removeDir (s.place ++ [run]) = .error .missing :=
      update_error hroot hlong (by rw [hlookup])
    refine ⟨t, ?_, ⟨[], .inr ⟨hfind, rfl⟩, .refl _⟩, fun _ _ => rfl, entries, hroot⟩
    unfold FileStore.clear
    rw [hrun, runPlace, hremoved]

end Stores

end FileStore

/-! ## Both stores side by side -/

namespace CheckpointStore.Operation

/-- Whether the names in an operation are short enough for files. -/
def Short : Operation → Prop
  | .save run c => isLongName run = false ∧ c.id.utf8ByteSize + FileStore.scratchLength ≤ nameLimit
  | .load run id => isLongName run = false ∧ isLongName (FileStore.fileName id) = false
  | .latest run | .clear run | .list run => isLongName run = false

theorem keep_save_self (run : String) (c : Checkpoint) (cs : List Checkpoint) :
    (Operation.save run c).keep run cs = cs ++ [c] := if_pos rfl

/-- An operation on one run makes nothing of the checkpoints of another. -/
theorem keep_of_ne (hne : op.run ≠ other) : op.keep other cs = cs := by
  cases op with
  | save run c => exact if_neg hne
  | clear run => exact if_neg hne
  | load run id => rfl
  | latest run => rfl
  | list run => rfl

end CheckpointStore.Operation

namespace MemoryStore

theorem save_ok (hrun : Checkpoint.checkId run = .ok ()) :
    save run c runs = (.ok (), runs.insert run (ofRun runs run ++ [c])) := by
  unfold save
  rw [hrun]

/-- **What an operation makes of the checkpoints of a run** in memory. -/
theorem ofRun_perform (hrun : Checkpoint.checkId op.run = .ok ()) (other : String) :
    ofRun (store.perform op runs).2 other = op.keep other (ofRun runs other) := by
  cases op with
  | save run c =>
    have hrun : Checkpoint.checkId run = .ok () := hrun
    show ofRun (save run c runs).2 other = _
    rw [save_ok hrun, Operation.keep]
    split
    · rename_i heq
      rw [heq, ofRun_insert_self]
    · rename_i hne
      exact ofRun_insert_of_ne _ hne
  | clear run =>
    show ofRun (runs.insert run []) other = _
    rw [Operation.keep]
    split
    · rename_i heq
      rw [heq, ofRun_insert_self]
    · rename_i hne
      exact ofRun_insert_of_ne _ hne
  | load run id => rfl
  | latest run => rfl
  | list run => rfl

end MemoryStore

namespace FileStore

/-- **The files mirror what is kept in memory.** -/
structure Mirrors (s : FileStore) (t : Files) (runs : MemoryStore.Runs) : Prop where
  /-- The root is a directory. -/
  root : ∃ entries, t.find s.place = .ok (.dir entries)
  /-- Every run has the files of its checkpoints. -/
  stores : ∀ run, isLongName run = false → s.Stores run (MemoryStore.ofRun runs run) t
  /-- Directories can hold these. -/
  sound : ∀ run, Checkpoint.Sound (MemoryStore.ofRun runs run)

namespace Mirrors

theorem alike (h : s.Mirrors t runs) (ha : t.Alike u) : s.Mirrors u runs := by
  obtain ⟨entries, hroot⟩ := h.root
  obtain ⟨listed, hlisted, -⟩ := ha.dir _ _ hroot
  exact ⟨⟨listed, hlisted⟩, fun run hlong => (h.stores run hlong).alike (h.sound run) ha, h.sound⟩

/-- A change in the directory of a run, and to its checkpoints in memory. -/
theorem change (h : s.Mirrors t runs) (hroot : ∃ entries, t'.find s.place = .ok (.dir entries))
    (hothers : s.SameElsewhere run t t') (hown : s.Stores run cs t') (hsound : Checkpoint.Sound cs) :
    s.Mirrors t' (runs.insert run cs) := by
  refine ⟨hroot, fun other hlong => ?_, fun other => ?_⟩
  · by_cases hne : run = other
    · rwa [← hne, MemoryStore.ofRun_insert_self]
    · rw [MemoryStore.ofRun_insert_of_ne _ hne]
      exact (h.stores other hlong).of_find (hothers other hne)
  · by_cases hne : run = other
    · rwa [← hne, MemoryStore.ofRun_insert_self]
    · rw [MemoryStore.ofRun_insert_of_ne _ hne]
      exact h.sound other

/-- Both stores keep a checkpoint that can be held with the others. -/
theorem save (h : s.Mirrors t runs) (hrun : Checkpoint.checkId run = .ok ())
    (hlong : isLongName run = false) (hheld : Checkpoint.Sound (MemoryStore.ofRun runs run ++ [c])) :
    (s.save run c t).1 = (MemoryStore.save run c runs).1 ∧
      s.Mirrors (s.save run c t).2 (MemoryStore.save run c runs).2 := by
  obtain ⟨entries, hroot⟩ := h.root
  have hfresh : c.id ∉ (MemoryStore.ofRun runs run).map Checkpoint.id := by
    have hn := hheld.distinct
    rw [List.map_append] at hn
    exact fun hmem => List.disjoint_of_nodup_append hn hmem (List.mem_singleton_self _)
  obtain ⟨t', hsave, hown, hothers, hroot'⟩ := (h.stores run hlong).save hroot hrun hlong
    (hheld.fits c (List.mem_append_right _ (List.mem_singleton_self c))) hfresh
  rw [hsave, MemoryStore.save_ok hrun]
  exact ⟨rfl, h.change hroot' hothers hown hheld⟩

/-- Both stores remove all checkpoints of a run. -/
theorem clear (h : s.Mirrors t runs) (hrun : Checkpoint.checkId run = .ok ())
    (hlong : isLongName run = false) :
    (s.clear run t).1 = .ok () ∧ s.Mirrors (s.clear run t).2 (runs.insert run []) := by
  obtain ⟨entries, hroot⟩ := h.root
  obtain ⟨t', hclear, hown, hothers, hroot'⟩ := (h.stores run hlong).clear hroot hrun hlong
  rw [hclear]
  exact ⟨rfl, h.change hroot' hothers hown ⟨nofun, List.nodup_nil⟩⟩

/-- Both stores find the same under an identifier. -/
theorem load (h : s.Mirrors t runs) (hrun : Checkpoint.checkId run = .ok ())
    (hid : Checkpoint.checkId id = .ok ()) (hlong : isLongName run = false)
    (hshort : isLongName (fileName id) = false) : s.load run id t = MemoryStore.load run id runs := by
  unfold MemoryStore.load
  cases hfind : (MemoryStore.ofRun runs run).find? fun c => c.id = id with
  | some c =>
    obtain rfl : c.id = id := by simpa using List.find?_some hfind
    exact (h.stores run hlong).load_of_mem (h.sound run) hrun (List.mem_of_find?_eq_some hfind)
  | none =>
    refine (h.stores run hlong).load_of_not_mem hrun hid hshort fun hmem => ?_
    obtain ⟨c, hc, heq⟩ := List.mem_map.1 hmem
    exact List.find?_eq_none.1 hfind c hc (decide_eq_true heq)

/-- **One operation** is answered alike and keeps the stores alike, if what it makes can be held. -/
theorem perform (h : s.Mirrors t runs) (hplain : ∀ id ∈ op.ids, Checkpoint.checkId id = .ok ())
    (hshort : op.Short)
    (hsound : Checkpoint.Sound (op.keep op.run (MemoryStore.ofRun runs op.run))) :
    (s.store.perform op t).1 = (MemoryStore.store.perform op runs).1 ∧
      s.Mirrors (s.store.perform op t).2 (MemoryStore.store.perform op runs).2 := by
  have hrun : Checkpoint.checkId op.run = .ok () := hplain _ op.run_mem_ids
  cases op with
  | save run c =>
    have hheld : Checkpoint.Sound (MemoryStore.ofRun runs run ++ [c]) := by
      rw [← Operation.keep_save_self]
      exact hsound
    obtain ⟨hreply, hmirrors⟩ := h.save hrun hshort.1 hheld
    exact ⟨congrArg Reply.done hreply, hmirrors⟩
  | clear run =>
    obtain ⟨hreply, hmirrors⟩ := h.clear hrun hshort
    exact ⟨congrArg Reply.done hreply, hmirrors⟩
  | load run id =>
    exact ⟨congrArg Reply.found (h.load hrun (hplain id (by simp [Operation.ids])) hshort.1 hshort.2), h⟩
  | latest run =>
    have hnewest := Checkpoint.newest?_eq_getLast? (h.sound run).distinct
    have hlatest := (h.stores run hshort).latest (h.sound run) hrun
    exact ⟨congrArg Reply.newest (hlatest.trans (congrArg Except.ok hnewest.symm)), h⟩
  | list run => exact ⟨congrArg Reply.ids ((h.stores run hshort).list (h.sound run) hrun), h⟩

end Mirrors

end FileStore

end Stepflow
