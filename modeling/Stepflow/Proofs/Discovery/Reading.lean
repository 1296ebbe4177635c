import Mathlib.Data.List.Nodup
import Mathlib.Data.List.Perm.Basic
import Stepflow.Discovery
import Stepflow.Proofs.Files.Directory

/-!
# What is read of a place

Every file of a workflow in a directory is read once: either its metadata make it a candidate for a name,
or it is set aside as unreadable (`paths_perm`). Candidates come in the order of their paths, and in what
order the directory lists its entries does not matter (`readings_congr`).
-/

namespace Stepflow

/-- A file with a text holds it. -/
theorem Content.eq_text {content : Content} {text : String} (h : content.text? = some text) :
    content = .text text := by
  cases content with
  | text s => exact congrArg Content.text (Option.some.inj h)
  | raw bs => contradiction

/-- The precedence of a source: that of the project is the highest. -/
def Source.level : Source → Nat
  | .builtin => 0
  | .user => 1
  | .project => 2

namespace Discovery

variable {p q : Place} {places : List Place} {n : String} {c d : Candidate} {s : Skipped}
  {name : String} {text : Option String} {entries listed : List (String × Files)}

/-! ## What is in a place -/

/-- Whether a name is that of the file of a workflow. -/
def isWorkflowName (name : String) : Bool := extensions.any (FilePath.hasExtension name)

/-- The paths of the files of workflows in a place, in the order of its entries. -/
def Place.paths (p : Place) : List String :=
  p.entries.filterMap fun
    | (name, .file _) => if isWorkflowName name then some (FilePath.join p.path name) else none
    | (_, .dir _) => none

/-- **A place defines a name** by a candidate: a file of it is named as those of workflows are, and its
metadata can be read and have the name. -/
def Place.Defines (p : Place) (n : String) (c : Candidate) : Prop :=
  ∃ name, (name, .file (.text c.text)) ∈ p.entries ∧ isWorkflowName name = true ∧
    Metadata.ofText? c.text = some c.metadata ∧ c.metadata.name = n ∧
    c.path = FilePath.join p.path name ∧ c.source = p.source

/-- **A file of a place is unreadable**: it holds no text, or one without metadata. -/
def Place.Unreadable (p : Place) (s : Skipped) : Prop :=
  ∃ name content, (name, .file content) ∈ p.entries ∧ isWorkflowName name = true ∧
    s.path = FilePath.join p.path name ∧ s.source = p.source ∧
    (content.text? = none ∧ s.error = Obstacle.notText.message ∨
      ∃ text, content.text? = some text ∧ Metadata.ofText? text = none ∧
        s.error = "invalid workflow metadata")

/-- **Places as they are searched**: those of higher sources come later, and the entries of each have
names of their own that lead to nowhere else. -/
structure Searched (places : List Place) : Prop where
  /-- Higher sources come later. -/
  sources : places.Pairwise fun p q => p.source.level < q.source.level
  /-- The entries of a place have different names. -/
  distinct : ∀ p ∈ places, (p.entries.map Prod.fst).Nodup
  /-- A name is a single one. -/
  single : ∀ p ∈ places, ∀ e ∈ p.entries, '/' ∉ e.1.toList

/-! ## Files -/

theorem document?_eq_some {e : String × Files} {d : String × Option String} : document? e = some d ↔
    ∃ content, e = (d.1, .file content) ∧ isWorkflowName d.1 = true ∧ content.text? = d.2 := by
  obtain ⟨name, f⟩ := e
  obtain ⟨name', text⟩ := d
  cases f with
  | dir es => simp [document?]
  | file content =>
    rw [document?, ← isWorkflowName]
    by_cases hname : isWorkflowName name = true
    · rw [if_pos hname]
      simp only [Option.some.injEq, Prod.mk.injEq, Files.file.injEq]
      constructor
      · rintro ⟨rfl, rfl⟩
        exact ⟨content, ⟨rfl, rfl⟩, hname, rfl⟩
      · rintro ⟨content', ⟨rfl, rfl⟩, -, rfl⟩
        exact ⟨rfl, rfl⟩
    · rw [if_neg hname]
      refine ⟨nofun, ?_⟩
      rintro ⟨content', h, hname', -⟩
      obtain ⟨rfl, -⟩ := Prod.mk.inj h
      exact absurd hname' hname

theorem mem_documents : (name, text) ∈ documents entries ↔
    ∃ content, (name, .file content) ∈ entries ∧ isWorkflowName name = true ∧ content.text? = text := by
  rw [documents, (List.mergeSort_perm _ _).mem_iff, List.mem_filterMap]
  constructor
  · rintro ⟨e, he, hd⟩
    obtain ⟨content, rfl, hname, htext⟩ := document?_eq_some.1 hd
    exact ⟨content, he, hname, htext⟩
  · rintro ⟨content, he, hname, htext⟩
    exact ⟨_, he, document?_eq_some.2 ⟨content, rfl, hname, htext⟩⟩

theorem documents_nodup (hn : (entries.map Prod.fst).Nodup) :
    ((documents entries).map Prod.fst).Nodup := by
  have hperm := (List.mergeSort_perm (entries.filterMap document?) fun a b => a.1 ≤ b.1).map Prod.fst
  refine hperm.nodup_iff.2 (List.pairwise_map.2 ((List.pairwise_map.1 hn).filterMap _ ?_))
  rintro a b hne d hd d' hd' heq
  obtain ⟨_, rfl, _⟩ := document?_eq_some.1 hd
  obtain ⟨_, rfl, _⟩ := document?_eq_some.1 hd'
  exact hne heq

theorem documents_sorted (entries : List (String × Files)) :
    (documents entries).Pairwise fun a b => a.1 ≤ b.1 := by
  have hsorted : (documents entries).Pairwise fun a b => decide (a.1 ≤ b.1) = true :=
    List.pairwise_mergeSort
      (fun a b c hab hbc => by
        rw [decide_eq_true_eq] at *
        exact String.le_trans hab hbc)
      (fun a b => by
        rw [Bool.or_eq_true, decide_eq_true_eq, decide_eq_true_eq]
        exact String.le_total a.1 b.1)
      (entries.filterMap document?)
  exact hsorted.imp of_decide_eq_true

/-- Files come in the order of their names. -/
theorem documents_strict (hn : (entries.map Prod.fst).Nodup) :
    (documents entries).Pairwise fun a b => a.1 < b.1 :=
  (documents_sorted entries).imp₂
    (fun _ _ h hne => String.not_le.1 fun h' => hne (String.le_antisymm h h'))
    (List.pairwise_map.1 (documents_nodup hn))

/-- In what order entries are listed does not matter. -/
theorem documents_congr (hn : (entries.map Prod.fst).Nodup) (h : entries.Perm listed) :
    documents entries = documents listed := by
  have hfiles : (documents entries).Perm (documents listed) :=
    (List.mergeSort_perm _ _).trans ((h.filterMap _).trans (List.mergeSort_perm _ _).symm)
  refine hfiles.eq_of_pairwise (fun a b ha hb hab hba => ?_) (documents_sorted _) (documents_sorted _)
  exact List.inj_on_of_nodup_map (documents_nodup hn) ha (hfiles.mem_iff.2 hb)
    (String.le_antisymm hab hba)

/-- Files that are listed in the order of their names are taken as they come. -/
theorem documents_of_sorted (h : (entries.filterMap document?).Pairwise fun a b => a.1 ≤ b.1) :
    documents entries = entries.filterMap document? :=
  List.mergeSort_of_pairwise (h.imp decide_eq_true)

/-! ## Readings -/

theorem read_eq_ok : p.read (name, text) = .ok c ↔ text = some c.text ∧
    Metadata.ofText? c.text = some c.metadata ∧ c.path = FilePath.join p.path name ∧
      c.source = p.source := by
  obtain ⟨metadata, path, source, document⟩ := c
  unfold Place.read
  cases text with
  | none => exact ⟨nofun, nofun⟩
  | some text =>
    dsimp only
    cases hmetadata : Metadata.ofText? text with
    | none =>
      refine ⟨nofun, ?_⟩
      rintro ⟨htext, hread, -⟩
      rw [Option.some.inj htext, hread] at hmetadata
      contradiction
    | some found =>
      simp only [Except.ok.injEq, Candidate.mk.injEq, Option.some.injEq]
      constructor
      · rintro ⟨rfl, rfl, rfl, rfl⟩
        exact ⟨rfl, hmetadata, rfl, rfl⟩
      · rintro ⟨rfl, hread, rfl, rfl⟩
        rw [hmetadata] at hread
        exact ⟨Option.some.inj hread, rfl, rfl, rfl⟩

theorem read_eq_error : p.read (name, text) = .error s ↔ s.path = FilePath.join p.path name ∧
    s.source = p.source ∧ (text = none ∧ s.error = Obstacle.notText.message ∨
      ∃ t, text = some t ∧ Metadata.ofText? t = none ∧ s.error = "invalid workflow metadata") := by
  obtain ⟨path, source, error⟩ := s
  unfold Place.read
  cases text with
  | none => simp [eq_comm]
  | some text =>
    dsimp only
    cases hmetadata : Metadata.ofText? text with
    | none => simp [hmetadata, eq_comm]
    | some found => simp [hmetadata]

/-- **Candidates are what a place defines.** -/
theorem mem_candidates : c ∈ p.candidates ↔ p.Defines c.metadata.name c := by
  have hmem : c ∈ p.candidates ↔ ∃ d ∈ documents p.entries, p.read d = .ok c := by
    rw [Place.candidates, Place.readings, List.filterMap_map, List.mem_filterMap]
    refine exists_congr fun d => and_congr_right fun _ => ?_
    cases hread : p.read d <;> simp [hread, Except.toOption]
  rw [hmem]
  constructor
  · rintro ⟨⟨name, text⟩, hd, hread⟩
    obtain ⟨rfl, hmetadata, hpath, hsource⟩ := read_eq_ok.1 hread
    obtain ⟨content, he, hname, htext⟩ := mem_documents.1 hd
    obtain rfl := Content.eq_text htext
    exact ⟨name, he, hname, hmetadata, rfl, hpath, hsource⟩
  · rintro ⟨name, he, hname, hmetadata, -, hpath, hsource⟩
    exact ⟨(name, some c.text), mem_documents.2 ⟨_, he, hname, rfl⟩,
      read_eq_ok.2 ⟨rfl, hmetadata, hpath, hsource⟩⟩

/-- **What is set aside cannot be read.** -/
theorem mem_unreadable : s ∈ p.unreadable ↔ p.Unreadable s := by
  have hmem : s ∈ p.unreadable ↔ ∃ d ∈ documents p.entries, p.read d = .error s := by
    rw [Place.unreadable, Place.readings, List.filterMap_map, List.mem_filterMap]
    refine exists_congr fun d => and_congr_right fun _ => ?_
    cases hread : p.read d <;> simp [hread]
  rw [hmem]
  constructor
  · rintro ⟨⟨name, text⟩, hd, hread⟩
    obtain ⟨hpath, hsource, herror⟩ := read_eq_error.1 hread
    obtain ⟨content, he, hname, rfl⟩ := mem_documents.1 hd
    exact ⟨name, content, he, hname, hpath, hsource, herror⟩
  · rintro ⟨name, content, he, hname, hpath, hsource, herror⟩
    exact ⟨(name, content.text?), mem_documents.2 ⟨_, he, hname, rfl⟩,
      read_eq_error.2 ⟨hpath, hsource, herror⟩⟩

theorem candidates_sorted (hn : (p.entries.map Prod.fst).Nodup)
    (hsingle : ∀ e ∈ p.entries, '/' ∉ e.1.toList) : p.candidates.Pairwise fun a b => a.path < b.path := by
  have hnames : ∀ d ∈ documents p.entries, '/' ∉ d.1.toList := by
    rintro ⟨name, text⟩ hd
    obtain ⟨content, he, -⟩ := mem_documents.1 hd
    exact hsingle _ he
  rw [Place.candidates, Place.readings, List.filterMap_map]
  refine ((documents_strict hn).imp_of_mem (R := fun a b => a.1 < b.1)
    (S := fun a b => a.1 < b.1 ∧ '/' ∉ a.1.toList ∧ '/' ∉ b.1.toList)
    fun ha hb h => ⟨h, hnames _ ha, hnames _ hb⟩).filterMap _ ?_
  rintro ⟨name, text⟩ ⟨name', text'⟩ ⟨hlt, hname, hname'⟩ a ha b hb
  have hpath : ∀ {d : String × Option String} {c : Candidate},
      (Except.toOption ∘ p.read) d = some c → c.path = FilePath.join p.path d.1 := by
    rintro d c hc
    cases hread : p.read d with
    | error s => simp [hread, Except.toOption] at hc
    | ok c' =>
      obtain rfl : c' = c := by simpa [hread, Except.toOption] using hc
      exact (read_eq_ok.1 hread).2.2.1
  rw [hpath ha, hpath hb]
  exact FilePath.join_lt hname hname' hlt

/-- The path of a file, whatever was read of it. -/
def readingPath : Except Skipped Candidate → String
  | .error s => s.path
  | .ok c => c.path

theorem readingPath_read (p : Place) (d : String × Option String) :
    readingPath (p.read d) = FilePath.join p.path d.1 := by
  obtain ⟨name, text⟩ := d
  cases hread : p.read (name, text) with
  | error s => exact (read_eq_error.1 hread).1
  | ok c => exact (read_eq_ok.1 hread).2.2.1

/-- **Every file is read once.** -/
theorem paths_perm (p : Place) :
    (p.candidates.map Candidate.path ++ p.unreadable.map Skipped.path).Perm p.paths := by
  have hparts : ∀ rs : List (Except Skipped Candidate),
      ((rs.filterMap Except.toOption).map Candidate.path ++
        (rs.filterMap fun | .error s => some s | .ok _ => none).map Skipped.path).Perm
          (rs.map readingPath) := by
    intro rs
    induction rs with
    | nil => exact .refl _
    | cons r rs ih =>
      cases r with
      | ok c => exact ih.cons c.path
      | error s => exact List.perm_middle.trans (ih.cons s.path)
  have hread : p.readings.map readingPath = (documents p.entries).map fun d => FilePath.join p.path d.1 := by
    rw [Place.readings, List.map_map]
    exact List.map_congr_left fun d _ => readingPath_read p d
  have hpaths : (p.entries.filterMap document?).map (fun d => FilePath.join p.path d.1) = p.paths := by
    rw [List.map_filterMap, Place.paths]
    refine List.filterMap_congr fun e _ => ?_
    obtain ⟨name, f⟩ := e
    cases f with
    | dir es => rfl
    | file content =>
      rw [document?, ← isWorkflowName]
      dsimp only
      split <;> rfl
  rw [← hpaths]
  exact ((hparts p.readings).trans (.of_eq hread)).trans ((List.mergeSort_perm _ _).map _)

/-! ## What does not matter -/

/-- **Two places are alike** up to the order in which their entries are listed. -/
structure Place.Alike (p q : Place) : Prop where
  /-- They have the same source. -/
  source : p.source = q.source
  /-- They have the same path. -/
  path : p.path = q.path
  /-- They have the same entries. -/
  entries : p.entries.Perm q.entries

/-- The same is read of them, in the same order. -/
theorem readings_congr (hn : (p.entries.map Prod.fst).Nodup) (h : p.Alike q) :
    p.readings = q.readings := by
  obtain ⟨source, path, entries⟩ := p
  obtain ⟨source', path', entries'⟩ := q
  obtain ⟨rfl, rfl, hentries⟩ := h
  show List.map _ (documents entries) = List.map _ (documents entries')
  rw [documents_congr hn hentries]
  rfl

end Discovery

end Stepflow
