import Stepflow.Proofs.Checkpoint.Filing
import Stepflow.Proofs.Checkpoint.Store
import Stepflow.Proofs.Result.Reading

/-!
# Checkpoints found again

What was saved is on the disk until its run is cleared or its identifier is used again, whatever else
is asked for and however directories list their entries. So a checkpoint is found again exactly if its
text can be read, which has a bound on its depth that writing does not have: a checkpoint whose results
are nested too deeply is accepted and lost (`recalls_iff_of_holds`).
-/

namespace Stepflow

namespace CheckpointStore

variable {σ : Type}

/-- **What is kept of a checkpoint**: it is found under its identifier, it is listed, and the newest one
is not before it. -/
structure Recalls (S : CheckpointStore σ) (run : String) (c : Checkpoint) (a : σ) : Prop where
  /-- It is found as it was. -/
  load : S.load run c.id a = .ok c
  /-- It is listed. -/
  list : ∃ ids, S.list run a = .ok ids ∧ c.id ∈ ids
  /-- The newest is this one or one that is not before it. -/
  latest : ∃ d, S.latest run a = .ok (some d) ∧ c.notAfter d = true

/-- Whether an operation spares a checkpoint: it does not clear its run or use its identifier again. -/
def Operation.Spares (run id : String) : Operation → Prop
  | .save other d => other = run → d.id ≠ id
  | .clear other => other ≠ run
  | .load _ _ | .latest _ | .list _ => True

end CheckpointStore

namespace FileStore

open Files CheckpointStore

variable {s : FileStore} {t t' u : Files} {run other id : String} {c d : Checkpoint} {content : Content}
  {ops : List Operation} {rs : List CheckpointStore.Reply}
  {op : Operation}

/-! ## What stays on the disk -/

/-- The file of an identifier holds something. -/
def Holds (s : FileStore) (run id : String) (content : Content) (t : Files) : Prop :=
  t.find (s.runPlace run ++ [fileName id]) = .ok (.file content)

namespace Holds

theorem alike (h : s.Holds run id content t) (ha : t.Alike u) : s.Holds run id content u :=
  (ha.file _ _).1 h

/-- Saving another checkpoint leaves the file as it is. -/
theorem save (h : s.Holds run id content t) (hne : other = run → d.id ≠ id) :
    s.Holds run id content (s.save other d t).2 := by
  by_cases hrun : other = run
  · subst hrun
    obtain heq | ⟨made, hmade, heq | hwritten⟩ := s.save_cases other d t
    · rw [heq]
      exact h
    · rw [heq]
      exact find_makeDirs hmade h
    · unfold Holds
      rw [find_update_of_ne (fileName_ne (hne rfl)) hwritten]
      exact find_makeDirs hmade h
  · exact (find_save_of_ne hrun _).2 h

/-- So does clearing another run. -/
theorem clear (h : s.Holds run id content t) (hne : other ≠ run) :
    s.Holds run id content (s.clear other t).2 :=
  (find_clear_of_ne hne).trans h

theorem perform (h : s.Holds run id content t) (hop : op.Spares run id) :
    s.Holds run id content (s.store.perform op t).2 := by
  cases op with
  | save other d => exact h.save hop
  | clear other => exact h.clear hop
  | load other id' => exact h
  | latest other => exact h
  | list other => exact h

/-- **The file of a checkpoint stays** as long as the checkpoint is spared. -/
theorem serves (h : s.Holds run id content t) (hops : ∀ op ∈ ops, op.Spares run id)
    (hserves : s.store.Serves Alike t ops rs t') : s.Holds run id content t' :=
  hserves.keeps (fun _ _ ha h => h.alike ha) (fun op hop _ h => h.perform (hops op hop)) h

end Holds

theorem holds_of_save (h : (s.save run c t).1 = .ok ()) :
    s.Holds run c.id (.text c.text) (s.save run c t).2 := by
  obtain ⟨-, -, made, -, hwritten⟩ := save_eq_ok h
  exact find_writeFile hwritten

/-! ## What is found again -/

/-- What a run's directory holds is read with everything else in it. -/
theorem readAll_of_holds (hid : Checkpoint.checkId id = .ok ()) (hrun : Checkpoint.checkId run = .ok ())
    (h : s.Holds run id content t) (hc : content.text?.bind Checkpoint.ofText? = some c) :
    ∃ entries, t.find (s.runPlace run) = .ok (.dir entries) ∧
      entries.lookup (fileName id) = some (.file content) ∧
      s.readAll run t = .ok (entries.filterMap checkpoint?) ∧ c ∈ entries.filterMap checkpoint? := by
  rw [Holds, find_append] at h
  cases hdir : t.find (s.runPlace run) with
  | error o =>
    rw [hdir] at h
    contradiction
  | ok f =>
    rw [hdir] at h
    obtain ⟨entries, below, rfl, hlong, hlookup, hbelow⟩ := find_cons_ok h
    rw [find] at hbelow
    obtain rfl := Except.ok.inj hbelow
    have hmem : c ∈ entries.filterMap checkpoint? := by
      refine List.mem_filterMap.2 ⟨_, mem_of_lookup hlookup, ?_⟩
      unfold checkpoint?
      rw [if_pos (hasExtension_fileName hid)]
      exact hc
    exact ⟨entries, rfl, hlookup, (readAll_eq_ok (List.ne_nil_of_mem hmem)).2 ⟨hrun, entries, hdir, rfl⟩,
      hmem⟩

/-- **A checkpoint on the disk** is found again exactly if its text is read. -/
theorem recalls_iff_of_holds (hid : Checkpoint.checkId c.id = .ok ())
    (hrun : Checkpoint.checkId run = .ok ()) (h : s.Holds run c.id (.text c.text) t) :
    s.store.Recalls run c t ↔ Checkpoint.ofText? c.text = some c := by
  constructor
  · intro hrecalls
    obtain ⟨-, -, content, hfile, hread⟩ := load_eq_ok.1 hrecalls.load
    rw [h] at hfile
    obtain rfl : Content.text c.text = content := by simpa using hfile
    rwa [bind_text] at hread
  · intro hread
    obtain ⟨entries, -, -, hall, hmem⟩ :=
      readAll_of_holds hid hrun h ((bind_text c.text Checkpoint.ofText?).trans hread)
    obtain ⟨d, hd, -, hmax⟩ := Checkpoint.newest?_of_ne_nil (List.ne_nil_of_mem hmem)
    refine ⟨load_eq_ok.2 ⟨hid, hrun, _, h, (bind_text _ _).trans hread⟩,
      ⟨_, list_of_readAll hall, ?_⟩,
      ⟨d, (latest_of_readAll hall).trans (congrArg Except.ok hd), hmax c hmem⟩⟩
    exact List.mem_map_of_mem ((Checkpoint.oldestFirst_perm _).mem_iff.2 hmem)

/-- One that cannot be read is not passed over when it is asked for. -/
theorem load_of_holds (hid : Checkpoint.checkId id = .ok ()) (hrun : Checkpoint.checkId run = .ok ())
    (h : s.Holds run id content t) (hnone : content.text?.bind Checkpoint.ofText? = none) :
    s.load run id t = .error .unreadable := by
  unfold load
  rw [hid, hrun]
  dsimp only [bind, Except.bind]
  rw [h]
  dsimp only
  rw [hnone]
  rfl

/-! ## Directories that hold nothing else -/

/-- **The directory of a run is tidy**: no two entries have the same name, no name is too long, and a
file in which a checkpoint is found has its name from it. -/
def Tidy (s : FileStore) (run : String) (t : Files) : Prop :=
  ∀ entries, t.find (s.runPlace run) = .ok (.dir entries) → (entries.map Prod.fst).Nodup ∧
    ∀ e ∈ entries, isLongName e.1 = false ∧ ∀ d, checkpoint? e = some d → e.1 = fileName d.id

namespace Tidy

theorem of_find (h : s.Tidy run t)
    (hfind : ∀ f, u.find (s.runPlace run) = .ok f → t.find (s.runPlace run) = .ok f) : s.Tidy run u :=
  fun entries hentries => h entries (hfind _ hentries)

theorem alike (h : s.Tidy run t) (ha : t.Alike u) : s.Tidy run u := by
  intro listed hlisted
  obtain ⟨entries, hentries, hnames⟩ := ha.symm.dir _ _ hlisted
  obtain ⟨hn, hfiles⟩ := h entries hentries
  have hn' := hnames.nodup_iff.1 hn
  refine ⟨hn', fun e he => ?_⟩
  have hlong : isLongName e.1 = false := by
    obtain ⟨e', he', heq⟩ := List.mem_map.1 (hnames.mem_iff.2 (List.mem_map_of_mem he))
    rw [← heq]
    exact (hfiles e' he').1
  refine ⟨hlong, fun d hd => ?_⟩
  obtain ⟨content, hcontent⟩ := file_of_checkpoint? hd
  obtain ⟨name, f⟩ := e
  obtain rfl : f = .file content := hcontent
  exact (hfiles _ (ha.symm.mem_of_mem hlisted hentries hn' hlong he)).2 d hd

/-- Making a directory keeps it tidy. -/
theorem made (h : s.Tidy run t) (hmade : t.makeDirs (s.runPlace run) = .ok u) : s.Tidy run u := by
  intro entries hentries
  obtain ⟨es, hes, hes'⟩ | ⟨-, hempty⟩ := find_makeDirs_self hmade
  · rw [hes'] at hentries
    obtain rfl : es = entries := by simpa using hentries
    exact h es hes
  · rw [hempty] at hentries
    obtain rfl : [] = entries := by simpa [Files.empty] using hentries
    exact ⟨List.nodup_nil, List.forall_mem_nil _⟩

/-- So does saving a checkpoint that is read as it was, if at all. -/
theorem save (h : s.Tidy run t) (hd : other = run → d.Legible) : s.Tidy run (s.save other d t).2 := by
  by_cases hrun : other = run
  · subst hrun
    obtain heq | ⟨u, hmade, heq | hwritten⟩ := s.save_cases other d t
    · rw [heq]
      exact h
    · rw [heq]
      exact h.made hmade
    · obtain ⟨entries, hentries, hlong, hdir⟩ := find_writeFile_dir hwritten
      obtain ⟨hn, hfiles⟩ := h.made hmade entries hentries
      intro listed hlisted
      rw [hdir] at hlisted
      obtain rfl : putEntry entries _ _ = listed := by simpa using hlisted
      refine ⟨nodup_putEntry hn, fun e he => ?_⟩
      obtain rfl | he := mem_putEntry he
      · refine ⟨hlong, fun d' hd' => ?_⟩
        have hread := ofText?_of_checkpoint? hd'
        rw [Checkpoint.ofText?_text (hd rfl)] at hread
        split at hread
        · obtain rfl := Option.some.inj hread
          rfl
        · contradiction
      · exact hfiles e he
  · exact h.of_find fun f hf => by
      rw [← List.append_nil (s.runPlace run)] at hf ⊢
      exact (find_save_of_ne hrun f).1 hf

theorem clear (h : s.Tidy run t) : s.Tidy run (s.clear other t).2 := by
  by_cases hrun : other = run
  · subst hrun
    unfold FileStore.clear
    split
    · exact h
    · split
      · rename_i removed hremoved
        exact fun entries hentries => absurd hentries (find_removeDir hremoved _)
      · exact h
      · exact h
  · exact h.of_find fun f hf => by
      rw [← List.append_nil (s.runPlace run)] at hf ⊢
      exact (find_clear_of_ne hrun).symm.trans hf

theorem perform (h : s.Tidy run t) (hop : ∀ d, op = .save run d → d.Legible) :
    s.Tidy run (s.store.perform op t).2 := by
  cases op with
  | save other d => exact h.save fun heq => hop d (heq ▸ rfl)
  | clear other => exact h.clear
  | load other id => exact h
  | latest other => exact h
  | list other => exact h

/-- **A directory stays tidy** while checkpoints are saved in it that are read as they were, if at all. -/
theorem serves (h : s.Tidy run t) (hops : ∀ d, .save run d ∈ ops → d.Legible)
    (hserves : s.store.Serves Alike t ops rs t') : s.Tidy run t' :=
  hserves.keeps (fun _ _ ha h => h.alike ha)
    (fun _ hop _ h => h.perform fun d heq => hops d (heq ▸ hop)) h

/-- **The newest in a tidy directory** that holds a checkpoint is this one or a newer one. -/
theorem latest (h : s.Tidy run t) (hid : Checkpoint.checkId c.id = .ok ())
    (hrun : Checkpoint.checkId run = .ok ()) (hholds : s.Holds run c.id (.text c.text) t)
    (hread : Checkpoint.ofText? c.text = some c) (hd : s.store.latest run t = .ok (some d)) :
    d = c ∨ d.isNewerThan c := by
  have hread' := (bind_text c.text Checkpoint.ofText?).trans hread
  obtain ⟨entries, hentries, hlookup, hall, hmem⟩ := readAll_of_holds hid hrun hholds hread'
  obtain ⟨hn, hfiles⟩ := h entries hentries
  obtain ⟨newest, hnewest, hin, hmax⟩ := Checkpoint.newest?_of_ne_nil (List.ne_nil_of_mem hmem)
  rw [latest_of_readAll hall, hnewest] at hd
  obtain rfl : newest = d := by simpa using hd
  by_cases hids : c.id = newest.id
  -- its entry has the name of the checkpoint's, so it is the checkpoint's
  · obtain ⟨⟨name, f⟩, he, hfound⟩ := List.mem_filterMap.1 hin
    obtain rfl : name = fileName c.id := hids ▸ (hfiles _ he).2 newest hfound
    obtain rfl : Files.file (.text c.text) = f := by simpa [hlookup] using lookup_of_mem hn he
    exact .inl (Option.some.inj (((ofText?_of_checkpoint? hfound).symm).trans hread))
  · exact .inr (Checkpoint.isNewerThan_of_ne (hmax c hmem) hids)

end Tidy

/-! ## What was saved -/

/-- **A saved checkpoint is found again** as long as it is spared, if and only if its object is not too
deep: then it is loaded as it was, it is listed, and the newest one is not before it; in a tidy directory,
the newest is this one or a newer one. A deeper one was accepted as well, but is not read any more. -/
theorem save_recalls_iff (hc : c.Legible) (hsave : (s.save run c t).1 = .ok ())
    (hops : ∀ op ∈ ops, op.Spares run c.id)
    (hserves : s.store.Serves Alike (s.save run c t).2 ops rs t') :
    (s.store.Recalls run c t' ↔ c.toValue.depth ≤ Json.maxDepth) ∧
      (c.toValue.depth ≤ Json.maxDepth → s.Tidy run t → (∀ d, .save run d ∈ ops → d.Legible) →
        ∀ d, s.store.latest run t' = .ok (some d) → d = c ∨ d.isNewerThan c) ∧
      (Json.maxDepth < c.toValue.depth → s.load run c.id t' = .error .unreadable) := by
  obtain ⟨hid, hrun, -⟩ := save_eq_ok hsave
  have hholds := (holds_of_save hsave).serves hops hserves
  have htext := Checkpoint.ofText?_text hc
  refine ⟨?_, fun hdepth htidy hlegible d hd => ?_, fun hdeep => ?_⟩
  · rw [recalls_iff_of_holds hid hrun hholds, htext]
    split <;> simp [*]
  · rw [if_pos hdepth] at htext
    exact ((htidy.save fun _ => hc).serves hlegible hserves).latest hid hrun hholds htext hd
  · rw [if_neg (Nat.not_le.2 hdeep)] at htext
    exact load_of_holds hid hrun hholds ((bind_text _ _).trans htext)

end FileStore

namespace Sample

open CheckpointStore Files

/-- A list in a list, and so on. -/
def nested : Nat → Value
  | 0 => .null
  | n + 1 => .arr [nested n]

theorem nested_depth (n : Nat) : (nested n).depth = n := by
  induction n with
  | zero => rfl
  | succ n ih => simp [nested, Value.depth, Value.depthList, ih]

theorem nested_throughout {P : Value → Prop} (hnull : P .null) (harr : ∀ vs, P (.arr vs)) (n : Nat) :
    (nested n).Throughout P := by
  induction n with
  | zero => exact hnull
  | succ n ih =>
    rw [nested, Value.Throughout, Value.throughoutAll_iff]
    exact ⟨harr _, by simpa using ih⟩

/-- A checkpoint of a step that produced nested lists. -/
def nesting (id : String) (n : Nat) : Checkpoint where
  id
  workflow := "wf"
  inputsHash := ""
  steps := [{ name := "s", type := .call, status := .passed, output := nested n }]
  savedAt := ⟨0, 0⟩

theorem nesting_depth (id : String) (n : Nat) : (nesting id n).toValue.depth = n + 3 := by
  simp [Checkpoint.toValue_eq, Checkpoint.entries, nesting, StepResult.toValue_eq, StepResult.entries,
    fieldOf, fieldUnless, Value.depth, Value.depthList, Value.depthFields, nested_depth]

/-- The epoch is found again from its text. -/
theorem epoch_legible : Instant.read? (Instant.text ⟨0, 0⟩) = some ⟨0, 0⟩ := by decide

theorem nesting_legible (id : String) (n : Nat) : (nesting id n).Legible where
  results := by
    have hproduced : (nested n).Proper := ⟨nested_throughout trivial (fun _ => trivial) n,
      nested_throughout trivial (fun _ => trivial) n⟩
    rintro r hr
    obtain rfl := List.mem_singleton.1 hr
    exact .intro hproduced (show 0 < countBound by decide)
      (show 0 < StepResult.durationBound by decide) nofun
  numbers := by
    have hproduced : (nested n).Throughout Json.Legible :=
      nested_throughout trivial (fun _ => trivial) n
    simp [Checkpoint.toValue_eq, Checkpoint.entries, nesting, StepResult.toValue_eq, StepResult.entries,
      fieldOf, fieldUnless, Value.Throughout, Value.ThroughoutAll, Value.ThroughoutFields, Json.Legible,
      hproduced]
  time := epoch_legible

/-- A store at the root. -/
def shelf : FileStore := { path := "/", place := [] }

theorem nesting_saved (n : Nat) : (shelf.save "r" (nesting "a" n) .empty).1 = .ok () := by
  have hroot : Files.empty.find shelf.place = .ok (.dir []) := rfl
  have hid : Checkpoint.checkId (nesting "a" n).id = .ok () :=
    Checkpoint.checkId_eq_ok.2 (show Checkpoint.isPlainId "a" = true by decide)
  have hrun : Checkpoint.checkId "r" = .ok () := Checkpoint.checkId_eq_ok.2 (by decide)
  have hfits : (nesting "a" n).id.utf8ByteSize + FileStore.scratchLength ≤ nameLimit :=
    show "a".utf8ByteSize + FileStore.scratchLength ≤ nameLimit by decide
  have hnone : Files.empty.find (shelf.runPlace "r") = .error .missing := find_dir (by decide)
  obtain ⟨t', hsave, -⟩ :=
    FileStore.save_in_dir hroot hid hrun (by decide) hfits (.inr ⟨hnone, rfl⟩) rfl
  rw [hsave]

/-- What is asked for in the meantime. -/
def meanwhile : List Operation := [.list "r", .save "r" (nesting "b" 200), .clear "q", .latest "r"]

theorem meanwhile_spares : ∀ op ∈ meanwhile, op.Spares "r" "a" := by
  simp [meanwhile, Operation.Spares, nesting]

theorem meanwhile_legible : ∀ d, Operation.save "r" d ∈ meanwhile → d.Legible := by
  intro d hd
  obtain rfl : d = nesting "b" 200 := by simpa [meanwhile] using hd
  exact nesting_legible _ _

theorem tidy_empty : shelf.Tidy "r" .empty :=
  fun _ hentries => absurd hentries (find_empty_ne_ok _)

end Sample

namespace FileStore

open CheckpointStore Sample

/-- With 124 lists in one another a checkpoint is found again, with 125 it is not. -/
theorem save_recalls_nesting :
    (shelf.store.Recalls "r" (nesting "a" 124)
        (shelf.store.performAll meanwhile (shelf.save "r" (nesting "a" 124) .empty).2) ∧
      ∀ d, shelf.store.latest "r"
          (shelf.store.performAll meanwhile (shelf.save "r" (nesting "a" 124) .empty).2) = .ok (some d) →
        d = nesting "a" 124 ∨ d.isNewerThan (nesting "a" 124)) ∧
    shelf.load "r" "a" (shelf.store.performAll meanwhile (shelf.save "r" (nesting "a" 125) .empty).2) =
      .error .unreadable := by
  have hkept := fun n => save_recalls_iff (nesting_legible "a" n) (nesting_saved n) meanwhile_spares
    (.of_refl Files.Alike.refl _ _)
  have hdepth : (nesting "a" 124).toValue.depth ≤ Json.maxDepth := by
    rw [nesting_depth]
    decide
  have hdeep : Json.maxDepth < (nesting "a" 125).toValue.depth := by
    rw [nesting_depth]
    decide
  exact ⟨⟨(hkept 124).1.2 hdepth, (hkept 124).2.1 hdepth tidy_empty meanwhile_legible⟩,
    (hkept 125).2.2 hdeep⟩

/-- **Not every checkpoint that was saved** is found again. -/
theorem not_save_recalls : ¬ ∀ (s : FileStore) (run : String) (c : Checkpoint) (t : Files), c.Legible →
    (s.save run c t).1 = .ok () → s.store.Recalls run c (s.save run c t).2 := by
  intro h
  have hrecalls := h shelf "r" (nesting "a" 125) .empty (nesting_legible _ _) (nesting_saved _)
  obtain ⟨hid, hrun, -⟩ := save_eq_ok (nesting_saved 125)
  have hread := (recalls_iff_of_holds hid hrun (holds_of_save (nesting_saved 125))).1 hrecalls
  rw [Checkpoint.ofText?_text (nesting_legible _ _), nesting_depth, if_neg (by decide)] at hread
  contradiction

end FileStore

end Stepflow
