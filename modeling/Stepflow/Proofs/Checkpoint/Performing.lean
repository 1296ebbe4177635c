import Mathlib.Data.String.Basic
import Stepflow.Proofs.Checkpoint.Filing
import Stepflow.Proofs.Files.Outside

/-!
# How a store of files goes about its operations

Identifiers that are plain names are ordinary names in a path (`Checkpoint.isName_of_isPlainId`), and so
are the names of the files that are made from them: every character in them is one that identifiers may
have, and what is put around an identifier makes it too long for a name of one or two points.

What a store of files makes of a tree in one stroke, it brings about by asking its disk for one thing
after the other. On a disk that is left alone by others this comes to the same (`perform_script`): the
directories list what is in them, and the file that is first written is gone in the end, whether it could
be put in its place or not.
-/

namespace Stepflow

/-! ## Numbers in names -/

namespace Identifier

variable {n : Nat} {c : Char}

/-- A number is printed with hexadecimal digits. -/
theorem digit_of_mem_toDigits (h : c ∈ Nat.toDigits 16 n) : ∃ d < 16, c = Nat.digitChar d := by
  induction n using Nat.strongRecOn with
  | ind n ih =>
    rw [Nat.toDigits_eq_if (by decide)] at h
    split at h
    · rename_i hlt
      exact ⟨n, hlt, List.mem_singleton.1 h⟩
    · obtain h | h := List.mem_append.1 h
      · exact ih (n / 16) (by omega) h
      · exact ⟨n % 16, Nat.mod_lt _ (by decide), List.mem_singleton.1 h⟩

theorem digit_of_mem_digits (h : c ∈ digits n) : ∃ d < 16, c = Nat.digitChar d := by
  obtain h | h := List.mem_append.1 h
  · exact ⟨0, by decide, List.eq_of_mem_replicate h⟩
  · exact digit_of_mem_toDigits h

theorem length_digits (n : Nat) : (digits n).length = width := by
  have hbound : (Nat.toDigits 16 (n % Nat.pow 16 width)).length ≤ width :=
    (Nat.length_toDigits_le_iff (by decide) (by decide)).2 (Nat.mod_lt _ (Nat.pow_pos (by decide)))
  rw [digits, List.length_append, List.length_replicate]
  omega

theorem mem_of_mem_groups {lengths : List Nat} {cs : List Char}
    (h : c ∈ ['-'].intercalate (cutInto lengths cs)) : c = '-' ∨ c ∈ cs := by
  induction lengths generalizing cs with
  | nil => simp [cutInto] at h
  | cons k lengths ih =>
    rw [cutInto] at h
    cases hrest : cutInto lengths (cs.drop k) with
    | nil =>
      rw [hrest, List.intercalate_singleton] at h
      exact .inr (List.mem_of_mem_take h)
    | cons group groups =>
      rw [hrest, List.intercalate_cons_cons, ← hrest, List.mem_append, List.mem_append,
        List.mem_singleton] at h
      obtain (h | h) | h := h
      · exact .inr (List.mem_of_mem_take h)
      · exact .inl h
      · exact (ih h).imp_right List.mem_of_mem_drop

theorem toList_ofNat (n : Nat) :
    (ofNat n).toList = ['-'].intercalate (cutInto groups (digits n)) := by
  simp [ofNat, String.toList_intercalate]

/-- A drawn identifier has thirty-two digits, and four signs between their groups. -/
theorem length_ofNat (n : Nat) : (ofNat n).toList.length = 36 := by
  rw [toList_ofNat]
  simp [groups, cutInto, List.intercalate, List.intersperse, length_digits, width]

theorem isIdChar_of_mem_ofNat (h : c ∈ (ofNat n).toList) : Checkpoint.isIdChar c = true := by
  have hdigit : ∀ d < 16, Checkpoint.isIdChar (Nat.digitChar d) = true := by decide
  rw [toList_ofNat] at h
  obtain rfl | h := mem_of_mem_groups h
  · decide
  · obtain ⟨d, hd, rfl⟩ := digit_of_mem_digits h
    exact hdigit d hd

end Identifier

/-! ## Plain names -/

namespace Checkpoint

variable {id : String} {c : Char}

theorem utf8Size_of_isIdChar (h : isIdChar c = true) : c.utf8Size = 1 := by
  have hsmall : c.val ≤ 127 := by
    simp only [isIdChar, Text.isDigit, Bool.or_eq_true, Bool.and_eq_true, decide_eq_true_eq,
      Char.le_def] at h
    obtain ((((⟨-, h⟩ | ⟨-, h⟩) | ⟨-, h⟩) | rfl) | rfl) | rfl := h
    · exact UInt32.le_trans h (by decide)
    · exact UInt32.le_trans h (by decide)
    · exact UInt32.le_trans h (by decide)
    all_goals decide
  exact if_pos hsmall

/-- Every character of a plain name takes one byte. -/
theorem utf8ByteSize_of_isIdChar {s : String} (h : ∀ c ∈ s.toList, isIdChar c = true) :
    s.utf8ByteSize = s.toList.length := by
  have hlist : ∀ cs : List Char, (∀ c ∈ cs, isIdChar c = true) → String.utf8Len cs = cs.length := by
    intro cs hcs
    induction cs with
    | nil => rfl
    | cons c cs ih =>
      rw [String.utf8Len_cons, ih fun d hd => hcs d (List.mem_cons_of_mem _ hd),
        utf8Size_of_isIdChar (hcs c List.mem_cons_self), List.length_cons]
  rw [← String.utf8Len_toList, hlist _ h]

/-- A text of such characters is an ordinary name, but for the three that are not. -/
theorem isName_of_isIdChar {name : String} (h : ∀ c ∈ name.toList, isIdChar c = true)
    (hne : name ≠ "" ∧ name ≠ "." ∧ name ≠ "..") : FilePath.isName name = true :=
  FilePath.isName_iff.2 ⟨hne.1, hne.2.1, hne.2.2, fun hslash => absurd (h _ hslash) (by decide),
    fun hzero => absurd (h _ hzero) (by decide)⟩

/-- The three have at most two characters. -/
theorem isName_of_length {name : String} (h : ∀ c ∈ name.toList, isIdChar c = true)
    (hlong : 2 < name.toList.length) : FilePath.isName name = true := by
  refine isName_of_isIdChar h ⟨?_, ?_, ?_⟩
  all_goals
    rintro rfl
    exact absurd hlong (by decide)

theorem isIdChar_of_isPlainId (h : isPlainId id = true) : ∀ c ∈ id.toList, isIdChar c = true := by
  simp only [isPlainId, Bool.and_eq_true] at h
  exact List.all_eq_true.1 h.2

/-- **A plain name is an ordinary one.** -/
theorem isName_of_isPlainId (h : isPlainId id = true) : FilePath.isName id = true := by
  have hchars := isIdChar_of_isPlainId h
  simp only [isPlainId, Bool.and_eq_true, decide_eq_true_eq] at h
  exact isName_of_isIdChar hchars ⟨h.1.1.1, h.1.1.2, h.1.2⟩

end Checkpoint

namespace FileStore

variable {id : String}

theorem toList_fileName (id : String) : (fileName id).toList = id.toList ++ ".json".toList := by
  rw [fileName, String.append_assoc, String.toList_append]
  rfl

theorem toList_scratchName (id : String) (drawn : Nat) : (scratchName id drawn).toList =
    '.' :: (id.toList ++ '.' :: ((Identifier.ofNat drawn).toList ++ ".tmp".toList)) := by
  simp [scratchName]

/-- The name of the file of a checkpoint is an ordinary one. -/
theorem isName_fileName (h : Checkpoint.isPlainId id = true) :
    FilePath.isName (fileName id) = true := by
  have hid := Checkpoint.isIdChar_of_isPlainId h
  have hend : ∀ c ∈ ".json".toList, Checkpoint.isIdChar c = true := List.all_eq_true.1 (by decide)
  refine Checkpoint.isName_of_length (fun c hc => ?_) ?_
  · rw [toList_fileName] at hc
    exact (List.mem_append.1 hc).elim (hid c) (hend c)
  · rw [toList_fileName, List.length_append, show ".json".toList.length = 5 by decide]
    omega

theorem isIdChar_of_mem_scratchName {drawn : Nat} (h : Checkpoint.isPlainId id = true) :
    ∀ c ∈ (scratchName id drawn).toList, Checkpoint.isIdChar c = true := by
  have hid := Checkpoint.isIdChar_of_isPlainId h
  have hend : ∀ c ∈ ".tmp".toList, Checkpoint.isIdChar c = true := List.all_eq_true.1 (by decide)
  intro c hc
  rw [toList_scratchName] at hc
  obtain rfl | hc := List.mem_cons.1 hc
  · decide
  obtain hc | hc := List.mem_append.1 hc
  · exact hid c hc
  obtain rfl | hc := List.mem_cons.1 hc
  · decide
  · exact (List.mem_append.1 hc).elim Identifier.isIdChar_of_mem_ofNat (hend c)

/-- So is the name under which it is first written. -/
theorem isName_scratchName (h : Checkpoint.isPlainId id = true) (drawn : Nat) :
    FilePath.isName (scratchName id drawn) = true := by
  refine Checkpoint.isName_of_length (isIdChar_of_mem_scratchName h) ?_
  rw [toList_scratchName, List.length_cons, List.length_append, List.length_cons, List.length_append,
    Identifier.length_ofNat]
  omega

theorem utf8ByteSize_scratchName (id : String) (drawn : Nat) :
    (scratchName id drawn).utf8ByteSize = id.utf8ByteSize + scratchLength := by
  have hdrawn : (Identifier.ofNat drawn).utf8ByteSize = 36 :=
    (Checkpoint.utf8ByteSize_of_isIdChar fun _ => Identifier.isIdChar_of_mem_ofNat).trans
      (Identifier.length_ofNat drawn)
  have hpoint : ".".utf8ByteSize = 1 := by decide
  have hend : ".tmp".utf8ByteSize = 4 := by decide
  rw [scratchName]
  simp only [String.utf8ByteSize_append, hdrawn, hpoint, hend, scratchLength]
  omega

end FileStore

/-! ## Files that come and go -/

namespace Files

variable {t t' made : Files} {own : List (String × Files)} {name : String} {place : List String}
  {content : Content}

/-- **A new file that is removed again** leaves the directory that was made for it as it was. -/
theorem removeFile_writeFile (hmade : t.makeDirs place = .ok made)
    (hdir : made.find place = .ok (.dir own)) (hfresh : own.lookup name = none)
    (hwritten : made.writeFile (place ++ [name]) content = .ok t') :
    t'.removeFile (place ++ [name]) = .ok made := by
  unfold writeFile at hwritten
  unfold removeFile
  induction place generalizing t made t' with
  | nil =>
    rw [find] at hdir
    obtain rfl := Except.ok.inj hdir
    rw [List.nil_append, update] at hwritten
    split at hwritten
    · contradiction
    · rename_i hlong
      rw [hfresh] at hwritten
      obtain rfl := Except.ok.inj hwritten
      rw [List.nil_append, update, if_neg hlong, lookup_putEntry_self]
      dsimp only
      rw [dropEntry_putEntry hfresh]
  | cons first place ih =>
    cases t with
    | file content => contradiction
    | dir entries =>
      rw [makeDirs] at hmade
      split at hmade
      · contradiction
      · rename_i hlong
        have hlong := Bool.eq_false_iff.2 hlong
        split at hmade
        · contradiction
        · rename_i below hbelow
          obtain rfl := Except.ok.inj hmade
          rw [find_dir hlong, lookup_putEntry_self] at hdir
          rw [List.cons_append, update_below hlong lookup_putEntry_self] at hwritten
          unfold Except.map at hwritten
          split at hwritten
          · contradiction
          · rename_i changed hchanged
            obtain rfl := Except.ok.inj hwritten
            rw [List.cons_append, update_below hlong lookup_putEntry_self, ih hbelow hdir hchanged]
            -- each entry that is put in on the way takes the place of the one before
            exact congrArg (Except.ok ∘ dir) ((putEntry_putEntry _ _ _ _).trans (putEntry_putEntry _ _ _ _))

end Files

/-! ## Failures without their paths -/

/-- A failure without the path of what stands in the way. -/
def CheckpointError.withoutPath : CheckpointError → CheckpointError
  | .blocked _ o => .blocked "" o
  | e => e

/-- An answer without the paths of failures. -/
def CheckpointStore.Reply.withoutPath : CheckpointStore.Reply → CheckpointStore.Reply
  | .done r => .done (r.mapError CheckpointError.withoutPath)
  | .found r => .found (r.mapError CheckpointError.withoutPath)
  | .newest r => .newest (r.mapError CheckpointError.withoutPath)
  | .ids r => .ids (r.mapError CheckpointError.withoutPath)

namespace FileStore

open CheckpointStore Files

/-- **How a store goes about an operation**, with a number that is drawn for it. -/
def script (s : FileStore) (drawn : Nat) : Operation → DiskScript CheckpointStore.Reply
  | .save run c => (s.saving drawn run c).mapResult .done
  | .load run id => (s.loading run id).mapResult .found
  | .latest run => (s.readingAll run).mapResult fun r => .newest (r.map Checkpoint.newest?)
  | .clear run => (s.clearing run).mapResult .done
  | .list run => (s.readingAll run).mapResult fun r =>
    .ids (r.map fun cs => (Checkpoint.oldestFirst cs).map Checkpoint.id)

variable {s : FileStore} {t : Files} {run id : String} {c : Checkpoint} {drawn : Nat}
  {workingDirectory : List String}

/-! ## Identifiers -/

theorem checking_of_plain {α : Type} {next : DiskScript (Except CheckpointError α)}
    (h : Checkpoint.isPlainId id = true) : checking id next = next := by
  rw [checking, Checkpoint.checkId_eq_ok.2 h]

theorem checkId_of_not_plain (h : Checkpoint.isPlainId id = false) :
    Checkpoint.checkId id = .error (.invalidId id) := by
  rw [Checkpoint.checkId, h]
  rfl

theorem checking_of_not_plain {α : Type} {next : DiskScript (Except CheckpointError α)}
    (h : Checkpoint.isPlainId id = false) : checking id next = .done (.error (.invalidId id)) := by
  rw [checking, checkId_of_not_plain h]

/-! ## Paths -/

/-- **The names that lead to the root** of a store are those in its path, for a process with a working
directory. -/
def IsAt (s : FileStore) (workingDirectory : List String) : Prop :=
  s.place = FilePath.names workingDirectory s.path

variable (hs : s.IsAt workingDirectory)

include hs

theorem names_runPath (hrun : Checkpoint.isPlainId run = true) :
    FilePath.names workingDirectory (s.runPath run) = s.runPlace run := by
  rw [runPath, FilePath.names_join (Checkpoint.isName_of_isPlainId hrun), ← hs]
  rfl

theorem names_join_runPath {name : String} (hrun : Checkpoint.isPlainId run = true)
    (hname : FilePath.isName name = true) :
    FilePath.names workingDirectory (FilePath.join (s.runPath run) name) = s.runPlace run ++ [name] := by
  rw [FilePath.names_join hname, names_runPath hs hrun]

theorem names_filePath (hrun : Checkpoint.isPlainId run = true) (hid : Checkpoint.isPlainId id = true) :
    FilePath.names workingDirectory (s.filePath run id) = s.runPlace run ++ [fileName id] :=
  names_join_runPath hs hrun (isName_fileName hid)

theorem names_scratchPath (hrun : Checkpoint.isPlainId run = true) (hid : Checkpoint.isPlainId id = true) :
    FilePath.names workingDirectory (s.scratchPath run id drawn) =
      s.runPlace run ++ [scratchName id drawn] :=
  names_join_runPath hs hrun (isName_scratchName hid drawn)

omit hs

/-! ## Reading -/

/-- **Entries as a disk has them**: no two have the same name, and the names are ordinary ones and not
too long. -/
structure Orderly (entries : List (String × Files)) : Prop where
  /-- No two entries have the same name. -/
  distinct : (entries.map Prod.fst).Nodup
  /-- The names are ordinary ones. -/
  names : ∀ e ∈ entries, FilePath.isName e.1 = true
  /-- None is too long. -/
  short : ∀ e ∈ entries, isLongName e.1 = false

/-- What is read of an entry of a directory is the checkpoint in it. -/
theorem checkpoint?_of_readFile {place : List String} {e : String × Files}
    (hfound : t.find (place ++ [e.1]) = .ok e.2)
    (hext : FilePath.hasExtension e.1 extension = true) : checkpoint? e =
      (t.readFile (place ++ [e.1])).toOption.bind fun c => c.text?.bind Checkpoint.ofText? := by
  rw [checkpoint?, if_pos hext, readFile, hfound]
  cases e.2 <;> rfl

include hs

/-- The files of entries are read one after the other. -/
theorem perform_readingEach {entries : List (String × Files)} (hrun : Checkpoint.isPlainId run = true)
    (hnames : ∀ e ∈ entries, FilePath.isName e.1 = true)
    (hfound : ∀ e ∈ entries, t.find (s.runPlace run ++ [e.1]) = .ok e.2) :
    DiskScript.perform workingDirectory
        (readingEach (s.runPath run) (Listing.ofEntries entries).names) t =
      (entries.filterMap checkpoint?, t) := by
  induction entries with
  | nil => rfl
  | cons e entries ih =>
    have hrest := ih (fun d hd => hnames d (List.mem_cons_of_mem _ hd))
      fun d hd => hfound d (List.mem_cons_of_mem _ hd)
    have hname := hnames e List.mem_cons_self
    have hcons : (Listing.ofEntries (e :: entries)).names =
        ⟨e.1, hname⟩ :: (Listing.ofEntries entries).names := by simp [Listing.ofEntries, hname]
    rw [hcons, readingEach]
    by_cases hext : FilePath.hasExtension e.1 extension = true
    · have hread := checkpoint?_of_readFile (hfound e List.mem_cons_self) hext
      rw [if_pos hext]
      simp only [Script.bind_eq, Script.pure_eq, DiskScript.perform_andThen, DiskScript.perform_read,
        DiskScript.perform_done, names_join_runPath hs hrun hname, hrest, ← hread]
      cases hcheckpoint : checkpoint? e <;> simp [hcheckpoint]
    · have hnone : checkpoint? e = none := if_neg hext
      rw [if_neg hext, hrest, List.filterMap_cons_none hnone]

/-- **Reading a run** comes to all checkpoints in its directory. -/
theorem perform_readingAll (hrun : Checkpoint.isPlainId run = true)
    (h : ∀ entries, t.find (s.runPlace run) = .ok (.dir entries) → Orderly entries) :
    DiskScript.perform workingDirectory (s.readingAll run) t = (s.readAll run t, t) := by
  rw [readingAll, checking_of_plain hrun, readAll, Checkpoint.checkId_eq_ok.2 hrun]
  simp only [Script.bind_eq, Script.pure_eq, DiskScript.perform_andThen, DiskScript.perform_list,
    names_runPath hs hrun]
  cases hdir : t.readDir (s.runPlace run) with
  | error o => cases o <;> rfl
  | ok entries =>
    have hplace := readDir_eq_ok.1 hdir
    have horderly := h entries hplace
    have hread := perform_readingEach hs hrun horderly.names fun e he => by
      rw [find_in_dir hplace (horderly.short e he), lookup_of_mem horderly.distinct he]
    simp only [Except.map, DiskScript.perform_andThen, hread]
    rfl

/-- **Loading** comes to the checkpoint in the file. -/
theorem perform_loading (hid : Checkpoint.isPlainId id = true) (hrun : Checkpoint.isPlainId run = true) :
    DiskScript.perform workingDirectory (s.loading run id) t = (s.load run id t, t) := by
  rw [loading, checking_of_plain hid, checking_of_plain hrun, load, Checkpoint.checkId_eq_ok.2 hid,
    Checkpoint.checkId_eq_ok.2 hrun]
  simp only [Script.bind_eq, Script.pure_eq, DiskScript.perform_andThen, DiskScript.perform_read,
    names_filePath hs hrun hid, readFile]
  cases t.find (s.runPlace run ++ [fileName id]) with
  | error o => cases o <;> rfl
  | ok f =>
    cases f with
    | dir entries => rfl
    | file content =>
      dsimp only [bind, Except.bind]
      cases content.text?.bind Checkpoint.ofText? <;> rfl

/-! ## Changing -/

/-- **Clearing** removes the directory. -/
theorem perform_clearing (hrun : Checkpoint.isPlainId run = true) :
    DiskScript.perform workingDirectory (s.clearing run) t = s.clear run t := by
  rw [clearing, checking_of_plain hrun, clear, Checkpoint.checkId_eq_ok.2 hrun]
  simp only [Script.bind_eq, Script.pure_eq, DiskScript.perform_andThen, DiskScript.perform_removeDir,
    names_runPath hs hrun]
  cases t.removeDir (s.runPlace run) with
  | error o => cases o <;> rfl
  | ok removed => rfl

/-- What is given up is removed again. -/
theorem perform_giveUp (hid : Checkpoint.isPlainId id = true) (hrun : Checkpoint.isPlainId run = true)
    (e : CheckpointError) : DiskScript.perform workingDirectory (s.giveUp run id drawn e) t =
      (.error e, (t.changed (t.removeFile (s.runPlace run ++ [scratchName id drawn]))).2) := by
  simp only [giveUp, Script.bind_eq, Script.pure_eq, DiskScript.perform_andThen,
    DiskScript.perform_removeFile, DiskScript.perform_done, names_scratchPath hs hrun hid]

/-- **A file that is put in its place** stands there in the end, and nothing is left of the one that was
first written, also where it could not be put there. -/
theorem perform_putting {made : Files} {own : List (String × Files)}
    (hid : Checkpoint.isPlainId c.id = true) (hrun : Checkpoint.isPlainId run = true)
    (hmade : t.makeDirs (s.runPlace run) = .ok made) (hdir : made.find (s.runPlace run) = .ok (.dir own))
    (hfresh : own.lookup (scratchName c.id drawn) = none) :
    DiskScript.perform workingDirectory (s.putting drawn run c) made =
      if nameLimit < c.id.utf8ByteSize + scratchLength then
        (.error (.blocked (s.scratchPath run c.id drawn) .longName), made)
      else match made.writeFile (s.runPlace run ++ [fileName c.id]) (.text c.text) with
        | .error o => (.error (s.blockedAtFile run c.id o), made)
        | .ok t => (.ok (), t) := by
  have hlong : isLongName (scratchName c.id drawn) = true ↔
      nameLimit < c.id.utf8ByteSize + scratchLength := by
    rw [isLongName, utf8ByteSize_scratchName, decide_eq_true_eq]
  simp only [putting, Script.bind_eq, Script.pure_eq, DiskScript.perform_andThen,
    DiskScript.perform_write, names_scratchPath hs hrun hid]
  by_cases hroom : nameLimit < c.id.utf8ByteSize + scratchLength
  · have hwrite : made.writeFile (s.runPlace run ++ [scratchName c.id drawn]) (.text c.text) =
        .error .longName := update_long hdir (hlong.2 hroom)
    have hremove : made.removeFile (s.runPlace run ++ [scratchName c.id drawn]) = .error .longName :=
      update_long hdir (hlong.2 hroom)
    rw [if_pos hroom, hwrite]
    simp only [changed, perform_giveUp hs hid hrun, hremove]
  · have hshort : isLongName (scratchName c.id drawn) = false := Bool.eq_false_iff.2 (hroom ∘ hlong.1)
    obtain ⟨written, hwritten⟩ : ∃ written, made.writeFile
        (s.runPlace run ++ [scratchName c.id drawn]) (.text c.text) = .ok written :=
      writeFile_ok hdir hshort hfresh
    have hremoved := removeFile_writeFile hmade hdir hfresh hwritten
    -- the tree without the new file is the one before it was written
    have hrename : ∀ target, written.renameFile (s.runPlace run ++ [scratchName c.id drawn]) target =
        made.writeFile target (.text c.text) := fun target => by
      rw [renameFile, readFile, find_writeFile hwritten, hremoved]
      rfl
    rw [if_neg hroom, hwritten]
    simp only [changed, DiskScript.perform_andThen, DiskScript.perform_rename,
      names_scratchPath hs hrun hid, names_filePath hs hrun hid, hrename]
    cases made.writeFile (s.runPlace run ++ [fileName c.id]) (.text c.text) with
    | ok t' => rfl
    | error o => simp only [changed, perform_giveUp hs hid hrun, hremoved]

/-- **Saving** comes to the file of the checkpoint in the directory of its run. -/
theorem perform_saving (hid : Checkpoint.isPlainId c.id = true) (hrun : Checkpoint.isPlainId run = true)
    (hfresh : ∀ own, t.find (s.runPlace run) = .ok (.dir own) →
      own.lookup (scratchName c.id drawn) = none) : ∃ r,
    DiskScript.perform workingDirectory (s.saving drawn run c) t = (r, (s.save run c t).2) ∧
      r.mapError CheckpointError.withoutPath =
        (s.save run c t).1.mapError CheckpointError.withoutPath := by
  rw [saving, checking_of_plain hid, checking_of_plain hrun, save, Checkpoint.checkId_eq_ok.2 hid,
    Checkpoint.checkId_eq_ok.2 hrun]
  simp only [Script.bind_eq, Script.pure_eq, DiskScript.perform_andThen, DiskScript.perform_makeDirs,
    names_runPath hs hrun]
  cases hmade : t.makeDirs (s.runPlace run) with
  | error o => exact ⟨_, rfl, rfl⟩
  | ok made =>
    obtain ⟨own, hdir, hnone⟩ : ∃ own, made.find (s.runPlace run) = .ok (.dir own) ∧
        own.lookup (scratchName c.id drawn) = none := by
      obtain ⟨own, hold, hdir⟩ | ⟨-, hdir⟩ := find_makeDirs_self hmade
      · exact ⟨own, hdir, hfresh own hold⟩
      · exact ⟨[], hdir, rfl⟩
    simp only [changed, perform_putting hs hid hrun hmade hdir hnone]
    split
    · exact ⟨_, rfl, rfl⟩
    · exact ⟨_, rfl, rfl⟩

/-! ## Operations -/

omit hs

/-- Whether the name under which a checkpoint is first written is a new one. -/
def Fresh (s : FileStore) (drawn : Nat) (t : Files) : Operation → Prop
  | .save run c => ∀ own, t.find (s.runPlace run) = .ok (.dir own) →
    own.lookup (scratchName c.id drawn) = none
  | .load _ _ | .latest _ | .clear _ | .list _ => True

include hs

/-- **What a store asks of its disk** comes to what the operation does to the tree, on a disk that is left
alone by others; the path that a failure names may be that of the file that was first written. -/
theorem perform_script {op : Operation} (hplain : ∀ id ∈ op.ids, Checkpoint.isPlainId id = true)
    (horderly : ∀ entries, t.find (s.runPlace op.run) = .ok (.dir entries) → Orderly entries)
    (hfresh : s.Fresh drawn t op) : ∃ r,
      DiskScript.perform workingDirectory (s.script drawn op) t = (r, (s.store.perform op t).2) ∧
        r.withoutPath = (s.store.perform op t).1.withoutPath := by
  cases op with
  | save run c =>
    have hrun := hplain run (by simp [Operation.ids])
    obtain ⟨r, hsaved, hr⟩ := perform_saving hs (hplain c.id (by simp [Operation.ids])) hrun hfresh
    refine ⟨.done r, ?_, congrArg Reply.done hr⟩
    rw [script, Script.mapResult, DiskScript.perform_andThen, hsaved]
    rfl
  | load run id =>
    have hrun := hplain run (by simp [Operation.ids])
    refine ⟨_, ?_, rfl⟩
    rw [script, Script.mapResult, DiskScript.perform_andThen,
      perform_loading hs (hplain id (by simp [Operation.ids])) hrun]
    rfl
  | latest run =>
    refine ⟨_, ?_, rfl⟩
    rw [script, Script.mapResult, DiskScript.perform_andThen,
      perform_readingAll hs (hplain run (by simp [Operation.ids])) horderly]
    rfl
  | clear run =>
    refine ⟨_, ?_, rfl⟩
    rw [script, Script.mapResult, DiskScript.perform_andThen,
      perform_clearing hs (hplain run (by simp [Operation.ids]))]
    rfl
  | list run =>
    refine ⟨_, ?_, rfl⟩
    rw [script, Script.mapResult, DiskScript.perform_andThen,
      perform_readingAll hs (hplain run (by simp [Operation.ids])) horderly]
    rfl

end FileStore

end Stepflow
