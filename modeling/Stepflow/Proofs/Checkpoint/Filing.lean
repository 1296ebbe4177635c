import Mathlib.Data.List.Nodup
import Mathlib.Data.List.Pairwise
import Stepflow.Proofs.Checkpoint.Store
import Stepflow.Proofs.Files.Directory

/-!
# The order and the files of checkpoints

Checkpoints are in a total order by the time at which they were saved and then by identifier. So there
is one way to list those of different identifiers from the oldest to the newest, in whatever order they
were found, and the newest one is the last of this list.

A checkpoint that is saved has a file in the directory of its run, named by its identifier. The file
stays as it is while other checkpoints are saved and other runs are cleared, and what is read of a run
is read from such files.
-/

namespace Stepflow

/-! ## Order -/

namespace Instant

variable {a b c : Instant}

theorem le_refl (a : Instant) : a.le a = true := by simp [le]

theorem le_total (a b : Instant) : a.le b = true ∨ b.le a = true := by
  simp only [le, Bool.or_eq_true, Bool.and_eq_true, decide_eq_true_eq]
  omega

theorem le_trans (h : a.le b = true) (h' : b.le c = true) : a.le c = true := by
  simp only [le, Bool.or_eq_true, Bool.and_eq_true, decide_eq_true_eq] at *
  omega

theorem le_antisymm (h : a.le b = true) (h' : b.le a = true) : a = b := by
  obtain ⟨s, n⟩ := a
  obtain ⟨s', n'⟩ := b
  simp only [le, Bool.or_eq_true, Bool.and_eq_true, decide_eq_true_eq, mk.injEq] at *
  omega

end Instant

namespace Checkpoint

variable {a b c d : Checkpoint} {cs ds : List Checkpoint}

theorem notAfter_iff : a.notAfter b = true ↔
    a.savedAt.le b.savedAt = true ∧ (a.savedAt = b.savedAt → a.id ≤ b.id) := by
  unfold notAfter
  split
  · rename_i heq
    simp [heq, Instant.le_refl]
  · rename_i hne
    simp [hne]

theorem notAfter_trans (a b c : Checkpoint) (h : a.notAfter b = true) (h' : b.notAfter c = true) :
    a.notAfter c = true := by
  obtain ⟨hab, hab'⟩ := notAfter_iff.1 h
  obtain ⟨hbc, hbc'⟩ := notAfter_iff.1 h'
  refine notAfter_iff.2 ⟨Instant.le_trans hab hbc, fun heq => ?_⟩
  -- between two equal times there is no other
  have hb : a.savedAt = b.savedAt := Instant.le_antisymm hab (heq ▸ hbc)
  exact String.le_trans (hab' hb) (hbc' (hb.symm.trans heq))

theorem notAfter_refl (a : Checkpoint) : a.notAfter a = true := by
  simp [notAfter_iff, Instant.le_refl]

theorem notAfter_total (a b : Checkpoint) : (a.notAfter b || b.notAfter a) = true := by
  rw [Bool.or_eq_true, notAfter_iff, notAfter_iff]
  by_cases heq : a.savedAt = b.savedAt
  · rw [heq]
    simpa [Instant.le_refl] using String.le_total a.id b.id
  · simpa [heq, Ne.symm heq] using Instant.le_total a.savedAt b.savedAt

/-- Two that are not after each other have the same identifier. -/
theorem id_eq_of_notAfter (h : a.notAfter b = true) (h' : b.notAfter a = true) : a.id = b.id := by
  obtain ⟨hab, hid⟩ := notAfter_iff.1 h
  obtain ⟨hba, hid'⟩ := notAfter_iff.1 h'
  have heq := Instant.le_antisymm hab hba
  exact String.le_antisymm (hid heq) (hid' heq.symm)

/-- **Newer**: saved later, or at the same time and behind by the identifier. -/
def isNewerThan (b a : Checkpoint) : Prop :=
  a.savedAt.le b.savedAt = true ∧ (a.savedAt = b.savedAt → a.id < b.id)

theorem isNewerThan_of_ne (h : a.notAfter b = true) (hne : a.id ≠ b.id) : b.isNewerThan a := by
  obtain ⟨htime, hid⟩ := notAfter_iff.1 h
  refine ⟨htime, fun heq => String.not_le.1 fun hle => hne ?_⟩
  exact String.le_antisymm (hid heq) hle

/-! ## Lists -/

theorem oldestFirst_perm (cs : List Checkpoint) : (oldestFirst cs).Perm cs := List.mergeSort_perm cs _

theorem oldestFirst_pairwise (cs : List Checkpoint) :
    (oldestFirst cs).Pairwise fun a b => a.notAfter b = true :=
  List.pairwise_mergeSort notAfter_trans notAfter_total cs

/-- **The newest of a list** is one of it, and none of it is after that. -/
theorem newest?_of_ne_nil (h : cs ≠ []) :
    ∃ d, newest? cs = some d ∧ d ∈ cs ∧ ∀ c ∈ cs, c.notAfter d = true := by
  unfold newest?
  have hperm : (cs.mergeSort fun a b => notAfter b a).Perm cs := List.mergeSort_perm cs _
  have hsorted := List.pairwise_mergeSort (fun a b c hab hbc => notAfter_trans c b a hbc hab)
    (fun a b => notAfter_total b a) cs
  cases hcs : cs.mergeSort fun a b => notAfter b a with
  | nil =>
    rw [hcs] at hperm
    exact absurd hperm.nil_eq.symm h
  | cons d ds =>
    rw [hcs] at hperm hsorted
    refine ⟨d, rfl, hperm.mem_iff.1 List.mem_cons_self, fun c hc => ?_⟩
    obtain rfl | hc := List.mem_cons.1 (hperm.mem_iff.2 hc)
    · exact notAfter_refl c
    · exact List.rel_of_pairwise_cons hsorted hc

/-- Of different identifiers, two that are not after each other are the same. -/
theorem eq_of_notAfter (hn : (cs.map id).Nodup) (ha : a ∈ cs) (hb : b ∈ cs)
    (h : a.notAfter b = true) (h' : b.notAfter a = true) : a = b :=
  List.inj_on_of_nodup_map hn ha hb (id_eq_of_notAfter h h')

/-- **The list from the oldest to the newest** does not depend on the order in which they are found. -/
theorem oldestFirst_eq_of_perm (hn : (cs.map id).Nodup) (h : cs.Perm ds) :
    oldestFirst cs = oldestFirst ds := by
  have hcs := oldestFirst_perm cs
  have hds := oldestFirst_perm ds
  refine List.Perm.eq_of_pairwise (fun a b ha hb => ?_) (oldestFirst_pairwise cs)
    (oldestFirst_pairwise ds) (hcs.trans (h.trans hds.symm))
  exact eq_of_notAfter hn (hcs.mem_iff.1 ha) (h.mem_iff.2 (hds.mem_iff.1 hb))

/-- It gets strictly newer. -/
theorem oldestFirst_strict (hn : (cs.map id).Nodup) :
    (oldestFirst cs).Pairwise fun a b => b.isNewerThan a := by
  have hids : ((oldestFirst cs).map id).Nodup := ((oldestFirst_perm cs).map id).nodup_iff.2 hn
  exact (oldestFirst_pairwise cs).imp₂ (fun _ _ h hne => isNewerThan_of_ne h hne)
    (List.pairwise_map.1 hids)

/-- **The newest is the last** of it. -/
theorem newest?_eq_getLast? (hn : (cs.map id).Nodup) : newest? cs = (oldestFirst cs).getLast? := by
  by_cases hnil : cs = []
  · rw [hnil, newest?, oldestFirst, List.mergeSort_nil, List.mergeSort_nil]
    rfl
  obtain ⟨d, hd, hmem, hmax⟩ := newest?_of_ne_nil hnil
  have hperm := oldestFirst_perm cs
  have hne : oldestFirst cs ≠ [] := fun h => hnil (List.nil_perm.1 (h ▸ hperm))
  have hlast := hperm.mem_iff.1 (List.getLast_mem hne)
  have hafter : d.notAfter ((oldestFirst cs).getLast hne) = true :=
    (oldestFirst_pairwise cs).rel_getLast_of_rel_getLast_getLast (hperm.mem_iff.2 hmem) (notAfter_refl _)
  rw [hd, List.getLast?_eq_getLast_of_ne_nil hne]
  exact congrArg some (eq_of_notAfter hn hmem hlast hafter (hmax _ hlast))

end Checkpoint

theorem Checkpoint.checkId_eq_ok {id : String} : checkId id = .ok () ↔ isPlainId id = true := by
  unfold checkId
  split <;> simp [*]

namespace FileStore

open Files

variable {s : FileStore} {t t' f : Files} {run other id : String} {c d : Checkpoint} {content : Content}
  {entries : List (String × Files)} {rest : List String}

/-! ## Names -/

/-- A file that is named by an identifier is the file of a checkpoint. -/
theorem hasExtension_fileName (h : Checkpoint.checkId id = .ok ()) :
    FilePath.hasExtension (fileName id) extension = true := by
  have hplain := Checkpoint.checkId_eq_ok.1 h
  simp only [Checkpoint.isPlainId, Bool.and_eq_true, decide_eq_true_eq] at hplain
  obtain ⟨⟨⟨hne, -⟩, -⟩, hall⟩ := hplain
  refine FilePath.hasExtension_append (by simpa using hne) (fun hslash => ?_) (by decide) (by decide)
    (by decide)
  exact absurd (List.all_eq_true.1 hall _ hslash) (by decide)

/-- Where there is room for the name under which a file is first written, there is for its own. -/
theorem isLongName_fileName (h : id.utf8ByteSize + scratchLength ≤ nameLimit) :
    isLongName (fileName id) = false := by
  have hsize : (fileName id).utf8ByteSize = id.utf8ByteSize + 5 := by
    rw [fileName, String.utf8ByteSize_append, String.utf8ByteSize_append]
    rfl
  rw [scratchLength, nameLimit] at h
  rw [isLongName, decide_eq_false_iff_not, hsize, nameLimit]
  omega

/-! ## Entries -/

/-- What is read of a text is read of the file that holds it. -/
@[simp] theorem bind_text (text : String) (read : String → Option Checkpoint) :
    (Content.text text).text?.bind read = read text := rfl

/-- The entry of a checkpoint in the directory of its run. -/
def entryOf (c : Checkpoint) : String × Files := (fileName c.id, .file (.text c.text))

theorem checkpoint?_entryOf (h : Checkpoint.checkId c.id = .ok ()) :
    checkpoint? (entryOf c) = Checkpoint.ofText? c.text := by
  unfold checkpoint? entryOf
  rw [if_pos (hasExtension_fileName h)]
  exact bind_text _ _

/-- What is read of the entry of a checkpoint is read of its text. -/
theorem ofText?_of_checkpoint? (h : checkpoint? (entryOf c) = some d) :
    Checkpoint.ofText? c.text = some d := by
  unfold checkpoint? entryOf at h
  split at h
  · exact (bind_text _ _).symm.trans h
  · contradiction

/-- What is read of an entry is in a file. -/
theorem file_of_checkpoint? {e : String × Files} (h : checkpoint? e = some d) :
    ∃ content, e.2 = .file content := by
  unfold checkpoint? at h
  split at h
  · split at h
    · rename_i content hfile
      exact ⟨content, hfile⟩
    · contradiction
  · contradiction

/-! ## What is read of a run -/

variable {cs : List Checkpoint}

theorem latest_of_readAll (h : s.readAll run t = .ok cs) :
    s.store.latest run t = .ok (Checkpoint.newest? cs) := by
  show (s.readAll run t).map _ = _
  rw [h]
  rfl

theorem list_of_readAll (h : s.readAll run t = .ok cs) :
    s.store.list run t = .ok ((Checkpoint.oldestFirst cs).map Checkpoint.id) := by
  show (s.readAll run t).map _ = _
  rw [h]
  rfl

/-! ## Saving and clearing -/

/-- **A checkpoint that was saved** was written in the directory of its run. -/
theorem save_eq_ok (h : (s.save run c t).1 = .ok ()) : Checkpoint.checkId c.id = .ok () ∧
    Checkpoint.checkId run = .ok () ∧ ∃ made, t.makeDirs (s.runPlace run) = .ok made ∧
      made.writeFile (s.runPlace run ++ [fileName c.id]) (.text c.text) = .ok (s.save run c t).2 := by
  unfold save at h ⊢
  split at h
  · contradiction
  · contradiction
  · rename_i hid hrun
    refine ⟨hid, hrun, ?_⟩
    split at h
    · contradiction
    · rename_i made hmade
      refine ⟨made, hmade, ?_⟩
      split at h
      · contradiction
      · rename_i hshort
        rw [if_neg hshort]
        split at h
        · contradiction
        · rename_i written hwritten
          exact hwritten

/-- An identifier is refused if the name under which its file is first written has no room for it. -/
theorem save_of_long {made : Files} (hid : Checkpoint.checkId c.id = .ok ())
    (hrun : Checkpoint.checkId run = .ok ()) (hmade : t.makeDirs (s.runPlace run) = .ok made)
    (hlong : nameLimit < c.id.utf8ByteSize + scratchLength) :
    s.save run c t = (.error (s.blockedAtFile run c.id .longName), made) := by
  unfold save
  rw [hid, hrun, hmade]
  exact if_pos hlong

/-- Saving changes nothing that is found of other runs. -/
theorem find_save_of_ne (hne : other ≠ run) (f : Files) :
    (s.save other d t).2.find (s.runPlace run ++ rest) = .ok f ↔
      t.find (s.runPlace run ++ rest) = .ok f := by
  rw [runPlace, List.append_assoc]
  obtain heq | ⟨made, hmade, heq | hwritten⟩ := s.save_cases other d t
  · rw [heq]
  · rw [heq]
    exact find_makeDirs_of_ne hne hmade f
  · rw [runPlace, List.append_assoc] at hwritten
    rw [List.singleton_append, find_update_of_ne hne hwritten]
    exact find_makeDirs_of_ne hne hmade f

/-- Nor does clearing. -/
theorem find_clear_of_ne (hne : other ≠ run) :
    (s.clear other t).2.find (s.runPlace run ++ rest) = t.find (s.runPlace run ++ rest) := by
  rw [runPlace, List.append_assoc]
  unfold clear
  split
  · rfl
  · split
    · rename_i removed hremoved
      exact find_update_of_ne hne hremoved
    · rfl
    · rfl

/-- **Saving in a directory** where there is one for the run, or room for one: the file of the checkpoint
is put in, and nothing else is changed. -/
theorem save_in_dir (hroot : t.find s.place = .ok (.dir entries)) (hid : Checkpoint.checkId c.id = .ok ())
    (hrun : Checkpoint.checkId run = .ok ()) (hlong : isLongName run = false)
    (hfits : c.id.utf8ByteSize + scratchLength ≤ nameLimit) {own : List (String × Files)}
    (hown : t.find (s.runPlace run) = .ok (.dir own) ∨
      t.find (s.runPlace run) = .error .missing ∧ own = [])
    (hfresh : own.lookup (fileName c.id) = none) : ∃ t', s.save run c t = (.ok (), t') ∧
      t'.find (s.runPlace run) = .ok (.dir (own ++ [entryOf c])) ∧
      ∀ other rest, run ≠ other → t'.find (s.place ++ other :: rest) = t.find (s.place ++ other :: rest) := by
  have hfree : ∀ content, entries.lookup run ≠ some (.file content) := fun content hfile => by
    rw [runPlace, find_in_dir hroot hlong, hfile] at hown
    simp at hown
  obtain ⟨made, hmade⟩ := makeDirs_ok hroot hlong hfree
  have hdir : made.find (s.runPlace run) = .ok (.dir own) := by
    obtain ⟨es, hes, hes'⟩ | ⟨hes, hes'⟩ := find_makeDirs_self hmade
    · obtain hown | ⟨hown, -⟩ := hown
      · rw [runPlace, hes] at hown
        exact hes'.trans hown
      · rw [runPlace, hes] at hown
        contradiction
    · obtain hown | ⟨-, rfl⟩ := hown
      · rw [runPlace, hes] at hown
        contradiction
      · exact hes'
  have hname := isLongName_fileName hfits
  obtain ⟨t', hwritten⟩ : ∃ t', made.writeFile (s.runPlace run ++ [fileName c.id]) (.text c.text) = .ok t' :=
    writeFile_ok hdir hname hfresh
  have hsave : s.save run c t = (.ok (), t') := by
    unfold save
    rw [hid, hrun, runPlace, hmade]
    dsimp only
    rw [if_neg (Nat.not_lt.2 hfits), ← runPlace, hwritten]
  obtain ⟨es, hes, -, hdir'⟩ := find_writeFile_dir hwritten
  obtain rfl : own = es := by
    rw [hdir] at hes
    simpa using hes
  refine ⟨t', hsave, ?_, fun other rest hne => ?_⟩
  · rw [hdir', putEntry_of_none hfresh]
    rfl
  · rw [runPlace, List.append_assoc] at hwritten
    rw [find_update_of_ne hne hwritten, find_makeDirs_eq hroot hne hmade]

end FileStore

end Stepflow
