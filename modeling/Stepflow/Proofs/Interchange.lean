import Mathlib.Data.List.Induction
import Mathlib.Data.List.Infix
import Stepflow.Proofs.Checkpoint.Mirroring
import Stepflow.Proofs.Recall

/-!
# The two stores answer alike

From an empty directory and an empty memory, the two stores cannot be told apart by whatever is asked
for, as long as the names of runs and checkpoints are not too long for files; memory has no such bound.
At any time both list what was saved and not removed since in one order, which is that of the times.
-/

namespace Stepflow

open CheckpointStore Files

variable {s : FileStore} {t t' : Files} {run : String} {c : Checkpoint} {runs : MemoryStore.Runs}
  {op : Operation} {ops before : List Operation} {rs : List CheckpointStore.Reply}

/-! ## Whatever is asked for -/

namespace CheckpointStore

/-- **What both stores are made for**: identifiers are plain names, checkpoints are read from their texts
as they were, and none is saved under an identifier that a checkpoint of its run still has. -/
structure Admissible (ops : List Operation) : Prop where
  /-- Identifiers are plain names. -/
  plain : ∀ op ∈ ops, ∀ id ∈ op.ids, Checkpoint.checkId id = .ok ()
  /-- Checkpoints are read as they were. -/
  read : ∀ run c, .save run c ∈ ops → Checkpoint.ofText? c.text = some c
  /-- At no time have two checkpoints of a run the same identifier. -/
  once : ∀ before, before <+: ops → ∀ run, ((kept run before).map Checkpoint.id).Nodup

/-- What is kept of a run was saved. -/
theorem save_mem_of_kept (h : c ∈ kept run ops) : .save run c ∈ ops := by
  induction ops using List.reverseRecOn with
  | nil => contradiction
  | append_singleton ops op ih =>
    rw [kept_append] at h
    have hold : c ∈ kept run ops → .save run c ∈ ops ++ [op] := fun h => List.mem_append_left _ (ih h)
    cases op with
    | save other d =>
      rw [Operation.keep] at h
      split at h
      · rename_i heq
        obtain h | h := List.mem_append.1 h
        · exact hold h
        · obtain rfl := List.mem_singleton.1 h
          rw [heq]
          simp
      · exact hold h
    | clear other =>
      rw [Operation.keep] at h
      split at h
      · contradiction
      · exact hold h
    | load other id => exact hold h
    | latest other => exact hold h
    | list other => exact hold h

/-- **It can be held** at any time. -/
theorem Admissible.sound (h : Admissible ops) (hshort : ∀ op ∈ ops, op.Short) (hb : before <+: ops)
    (run : String) : Checkpoint.Sound (kept run before) where
  fits c hc := by
    have hsave := hb.subset (save_mem_of_kept hc)
    exact ⟨h.plain _ hsave _ (by simp [Operation.ids]), (hshort _ hsave).2, h.read _ _ hsave⟩
  distinct := h.once before hb run

variable {σ : Type}

/-- **A store lists checkpoints of a run**: their identifiers in order, the last one as the newest, and
each of them under its identifier. -/
structure Lists (S : CheckpointStore σ) (run : String) (cs : List Checkpoint) (a : σ) : Prop where
  /-- The identifiers are listed. -/
  list : S.list run a = .ok (cs.map Checkpoint.id)
  /-- The newest is the last. -/
  latest : S.latest run a = .ok cs.getLast?
  /-- Each is found. -/
  load : ∀ c ∈ cs, S.load run c.id a = .ok c

end CheckpointStore

namespace MemoryStore

variable {a b : Runs}

/-- What is kept is in the list of the run. -/
theorem ofRun_performAll (hplain : ∀ op ∈ ops, Checkpoint.checkId op.run = .ok ()) (run : String) :
    ofRun (store.performAll ops []) run = kept run ops := by
  induction ops using List.reverseRecOn with
  | nil => rfl
  | append_singleton ops op ih =>
    rw [CheckpointStore.performAll, List.foldl_append, kept_append, ← CheckpointStore.performAll,
      ← ih fun o ho => hplain o (List.mem_append_left _ ho)]
    exact ofRun_perform (hplain op (by simp)) run

theorem lists (hs : Checkpoint.Sound (ofRun runs run)) :
    store.Lists run (Checkpoint.oldestFirst (ofRun runs run)) runs where
  list := rfl
  latest := congrArg Except.ok (Checkpoint.newest?_eq_getLast? hs.distinct)
  load c hc := by
    have hc := (Checkpoint.oldestFirst_perm _).mem_iff.1 hc
    show load run c.id runs = _
    unfold load
    cases hfind : (ofRun runs run).find? fun d => d.id = c.id with
    | none => exact absurd (decide_eq_true rfl) (List.find?_eq_none.1 hfind c hc)
    | some d =>
      have hid : d.id = c.id := by simpa using List.find?_some hfind
      exact congrArg Except.ok
        (List.inj_on_of_nodup_map hs.distinct (List.mem_of_find?_eq_some hfind) hc hid)

/-- The answer to an operation depends on the checkpoints of its run alone. -/
theorem reply_congr (h : ofRun a op.run = ofRun b op.run) :
    (store.perform op a).1 = (store.perform op b).1 := by
  cases op with
  | save run c =>
    show Reply.done (save run c a).1 = Reply.done (save run c b).1
    unfold save
    split <;> rfl
  | load run id =>
    show Reply.found (load run id a) = Reply.found (load run id b)
    unfold load
    rw [show ofRun a run = ofRun b run from h]
  | latest run => exact congrArg (fun cs => Reply.newest (.ok (Checkpoint.newest? cs))) h
  | clear run => rfl
  | list run =>
    exact congrArg (fun cs => Reply.ids (.ok ((Checkpoint.oldestFirst cs).map Checkpoint.id))) h

/-- **The answers for a run** are those to its own operations. -/
theorem replies_of_run (hplain : ∀ op ∈ ops, Checkpoint.checkId op.run = .ok ())
    (h : ofRun a run = ofRun b run) :
    ((ops.zip (store.replies ops a)).filter fun e => e.1.run = run).map Prod.snd =
      store.replies (ops.filter fun op => op.run = run) b := by
  induction ops generalizing a b with
  | nil => rfl
  | cons op ops ih =>
    have hop := hplain op List.mem_cons_self
    have hplain : ∀ o ∈ ops, Checkpoint.checkId o.run = .ok () := fun o ho =>
      hplain o (List.mem_cons_of_mem _ ho)
    rw [replies, List.zip_cons_cons]
    by_cases hrun : op.run = run
    · rw [List.filter_cons_of_pos (by simpa using hrun), List.filter_cons_of_pos (by simpa using hrun),
        List.map_cons, replies, reply_congr (b := b) (by rw [hrun]; exact h),
        ih (b := (store.perform op b).2) hplain (by rw [ofRun_perform hop, ofRun_perform hop, h])]
    · rw [List.filter_cons_of_neg (by simpa using hrun), List.filter_cons_of_neg (by simpa using hrun)]
      exact ih hplain (by rw [ofRun_perform hop, Operation.keep_of_ne hrun]; exact h)

end MemoryStore

namespace FileStore

/-- **One answer after the other** is the same, from stores that are alike. -/
theorem Mirrors.serves {more : List Operation} (hserves : s.store.Serves Alike t more rs t')
    (hops : before ++ more <+: ops) (ha : Admissible ops) (hshort : ∀ op ∈ ops, op.Short)
    (h : s.Mirrors t runs) (hkept : ∀ run, MemoryStore.ofRun runs run = kept run before) :
    rs = MemoryStore.store.replies more runs ∧
      s.Mirrors t' (MemoryStore.store.performAll more runs) := by
  induction hserves generalizing before runs with
  | nil hab => exact ⟨rfl, h.alike hab⟩
  | @cons a b c op more rs hab _ ih =>
    have hops : (before ++ [op]) ++ more <+: ops := by simpa using hops
    have hbefore := (List.prefix_append _ more).trans hops
    have hop : op ∈ ops := hbefore.subset (by simp)
    have hplain := ha.plain op hop
    have hsound : Checkpoint.Sound (op.keep op.run (MemoryStore.ofRun runs op.run)) := by
      rw [hkept, ← kept_append]
      exact ha.sound hshort hbefore op.run
    obtain ⟨hreply, hmirrors⟩ := (h.alike hab).perform hplain (hshort op hop) hsound
    obtain ⟨hreplies, hend⟩ := ih hops hmirrors fun run => by
      rw [MemoryStore.ofRun_perform (hplain _ op.run_mem_ids), hkept, kept_append]
    exact ⟨by rw [hreply, hreplies]; rfl, hend⟩

/-- An empty directory mirrors what an empty memory holds. -/
theorem mirrors_empty (hempty : t.find s.place = .ok (.dir [])) : s.Mirrors t [] where
  root := ⟨[], hempty⟩
  stores run hlong := by
    refine ⟨[], .inr ⟨?_, rfl⟩, .refl _⟩
    rw [runPlace, find_in_dir hempty hlong]
    rfl
  sound run := ⟨nofun, List.nodup_nil⟩

/-- **The two stores cannot be told apart.** From an empty directory and an empty memory, whatever is
asked for, as long as names are short enough for files: the store of files answers what the one in memory
answers, and nothing else; at any time both list what was saved of a run and not removed since, strictly
in order and with the last one as the newest; and the answers for a run are those that its operations
alone would have. -/
theorem serves_iff_replies (hempty : t.find s.place = .ok (.dir [])) (h : Admissible ops)
    (hshort : ∀ op ∈ ops, op.Short) :
    (∀ rs, (∃ t', s.store.Serves Alike t ops rs t') ↔ rs = MemoryStore.store.replies ops []) ∧
      (∀ before, before <+: ops → ∀ run, Checkpoint.checkId run = .ok () → isLongName run = false →
        ∃ cs, cs.Perm (kept run before) ∧ cs.Pairwise (fun a b => b.isNewerThan a) ∧
          MemoryStore.store.Lists run cs (MemoryStore.store.performAll before []) ∧
          ∀ rs t', s.store.Serves Alike t before rs t' → s.store.Lists run cs t') ∧
      ∀ run, ((ops.zip (MemoryStore.store.replies ops [])).filter fun e => e.1.run = run).map Prod.snd =
        MemoryStore.store.replies (ops.filter fun op => op.run = run) [] := by
  have hplain : ∀ op ∈ ops, Checkpoint.checkId op.run = .ok () := fun op hop =>
    h.plain op hop _ op.run_mem_ids
  have hserves : ∀ before rs t', before <+: ops → s.store.Serves Alike t before rs t' →
      rs = MemoryStore.store.replies before [] ∧
        s.Mirrors t' (MemoryStore.store.performAll before []) := fun before rs t' hb hs =>
    Mirrors.serves hs (show [] ++ before <+: ops from hb) h hshort (mirrors_empty hempty) fun _ => rfl
  refine ⟨fun rs => ⟨?_, ?_⟩, fun before hb run hrun hlong => ?_, fun run => ?_⟩
  · rintro ⟨t', hs⟩
    exact (hserves ops rs t' (List.prefix_refl _) hs).1
  · rintro rfl
    have hs := Serves.of_refl (S := s.store) Alike.refl ops t
    rw [(hserves ops _ _ (List.prefix_refl _) hs).1] at hs
    exact ⟨_, hs⟩
  · have hsound := h.sound hshort hb run
    have hkept := MemoryStore.ofRun_performAll (fun op hop => hplain op (hb.subset hop)) run
    refine ⟨Checkpoint.oldestFirst (kept run before), Checkpoint.oldestFirst_perm _,
      Checkpoint.oldestFirst_strict hsound.distinct, ?_, fun rs t' hs => ?_⟩
    · rw [← hkept] at hsound ⊢
      exact MemoryStore.lists hsound
    · have hstores := (hserves before rs t' hb hs).2.stores run hlong
      rw [hkept] at hstores
      exact ⟨hstores.list hsound hrun, hstores.latest hsound hrun, fun c hc =>
        hstores.load_of_mem hsound hrun ((Checkpoint.oldestFirst_perm _).mem_iff.1 hc)⟩
  · exact MemoryStore.replies_of_run hplain rfl

end FileStore

namespace Sample

/-- Two checkpoints of a run, with something asked for about this run and another one. -/
def errands : List Operation :=
  [.save "r" (nesting "b" 1), .save "r" (nesting "a" 2), .latest "r", .list "q", .load "r" "b"]

/-- An identifier of so many bytes. -/
def lengthy (n : Nat) : String := String.ofList (List.replicate n 'a')

/-- A checkpoint with an identifier that has no room in the name of a file. -/
def overlong : Checkpoint := nesting (lengthy 214) 0

theorem lengthy_size (n : Nat) : (lengthy n).utf8ByteSize = n := by
  unfold lengthy
  induction n with
  | zero => rfl
  | succ n ih =>
    rw [List.replicate_succ, ← List.singleton_append, String.ofList_append, String.utf8ByteSize_append, ih]
    exact Nat.add_comm 1 n

theorem lengthy_plain {n : Nat} (hn : 2 < n) : Checkpoint.checkId (lengthy n) = .ok () := by
  have hne : ∀ s : String, s.utf8ByteSize ≤ 2 → lengthy n ≠ s := fun s hs heq => by
    rw [← heq, lengthy_size] at hs
    exact Nat.not_le.2 hn hs
  have hchars : (lengthy n).toList.all Checkpoint.isIdChar = true := by
    rw [lengthy, String.toList_ofList, List.all_replicate]
    split <;> decide
  rw [Checkpoint.checkId_eq_ok, Checkpoint.isPlainId, hchars]
  simp [hne "" (by decide), hne "." (by decide), hne ".." (by decide)]

theorem nesting_read (id : String) {n : Nat} (hn : n ≤ 124) :
    Checkpoint.ofText? (nesting id n).text = some (nesting id n) := by
  rw [Checkpoint.ofText?_text (nesting_legible id n), nesting_depth, if_pos]
  rw [Json.maxDepth]
  omega

theorem errands_short : ∀ op ∈ errands, op.Short := by
  simp only [errands, List.forall_mem_cons, List.not_mem_nil, false_implies, implies_true, and_true,
    Operation.Short, nesting]
  decide

theorem errands_admissible : Admissible errands where
  plain := by
    simp only [errands, List.forall_mem_cons, List.not_mem_nil, false_implies, implies_true, and_true,
      Operation.ids, Checkpoint.checkId_eq_ok, nesting]
    decide
  read run c hc := by
    obtain ⟨-, rfl⟩ | ⟨-, rfl⟩ : run = "r" ∧ c = nesting "b" 1 ∨ run = "r" ∧ c = nesting "a" 2 := by
      simpa [errands] using hc
    · exact nesting_read _ (by decide)
    · exact nesting_read _ (by decide)
  once before hb run := by
    have hinits := (List.mem_inits before errands).2 hb
    simp only [errands, List.inits, List.map_cons, List.map_nil, List.mem_cons, List.not_mem_nil,
      or_false] at hinits
    by_cases hrun : "r" = run <;> obtain rfl | rfl | rfl | rfl | rfl | rfl := hinits <;>
      simp [kept, Operation.keep, nesting, hrun]

theorem overlong_admissible : Admissible [.save "r" overlong] where
  plain := by
    simp only [List.forall_mem_cons, List.not_mem_nil, false_implies, implies_true, and_true, Operation.ids]
    exact ⟨Checkpoint.checkId_eq_ok.2 (by decide), lengthy_plain (by decide)⟩
  read run c hc := by
    obtain ⟨-, rfl⟩ : run = "r" ∧ c = overlong := by simpa using hc
    exact nesting_read _ (by decide)
  once before hb run := by
    have hinits := (List.mem_inits before [Operation.save "r" overlong]).2 hb
    simp only [List.inits, List.map_cons, List.map_nil, List.mem_cons, List.not_mem_nil,
      or_false] at hinits
    by_cases hrun : "r" = run <;> obtain rfl | rfl := hinits <;> simp [kept, Operation.keep, hrun]

/-- The name under which it is first written is too long. -/
theorem overlong_refused :
    (shelf.save "r" overlong .empty).1 = .error (shelf.blockedAtFile "r" overlong.id .longName) := by
  have hplain := overlong_admissible.plain _ (List.mem_singleton_self _)
  have hroot : Files.empty.find [] = .ok (.dir []) := rfl
  obtain ⟨made, hmade⟩ : ∃ made, Files.empty.makeDirs ([] ++ ["r"]) = .ok made :=
    makeDirs_ok hroot (by decide) nofun
  have hid : overlong.id = lengthy 214 := rfl
  have hlong : nameLimit < overlong.id.utf8ByteSize + FileStore.scratchLength := by
    rw [hid, lengthy_size]
    decide
  exact congrArg Prod.fst (FileStore.save_of_long (hplain overlong.id (by simp [Operation.ids]))
    (hplain "r" (by simp [Operation.ids])) hmade hlong)

end Sample

namespace FileStore

open Sample

/-- The errands are run alike. -/
theorem serves_iff_replies_errands :
    shelf.store.replies errands .empty = MemoryStore.store.replies errands [] :=
  ((serves_iff_replies (s := shelf) (t := .empty) rfl errands_admissible errands_short).1 _).1
    ⟨_, .of_refl Alike.refl _ _⟩

/-- **Without a bound on names** the stores can be told apart. -/
theorem not_serves_iff_replies : ¬ ∀ (s : FileStore) (t : Files) (ops : List Operation),
    t.find s.place = .ok (.dir []) → Admissible ops →
      s.store.replies ops t = MemoryStore.store.replies ops [] := by
  intro h
  have heq := h shelf .empty [.save "r" overlong] rfl overlong_admissible
  have hmemory : (MemoryStore.save "r" overlong []).1 = .ok () := by
    have hplain := overlong_admissible.plain _ (List.mem_singleton_self _)
    rw [MemoryStore.save_ok (hplain "r" (by simp [Operation.ids]))]
  have hreply : Reply.done (shelf.save "r" overlong .empty).1 =
      Reply.done (MemoryStore.save "r" overlong []).1 := List.head_eq_of_cons_eq heq
  rw [overlong_refused, hmemory] at hreply
  simp at hreply

end FileStore

end Stepflow
