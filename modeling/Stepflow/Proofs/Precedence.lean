import Mathlib.Data.List.Perm.Basic
import Stepflow.Discovery
import Stepflow.Proofs.Conflicts

/-!
# What discovery selects

Under each name discovery selects the file of the highest source that can be loaded. The files of this
name in lower sources are shadowed by it, whether or not they could be loaded, and those in higher ones
are skipped, as are files without metadata. No file is lost, none comes twice, and the order in which
directories list their entries does not matter.
-/

/-!
## Selecting a candidate

Of candidates in a row, the first one that can be loaded is selected. Those in front of it were tried and
are skipped, those behind it are shadowed and not looked at. So every candidate is accounted for once
(`select_paths_perm`).
-/

namespace Stepflow.Discovery

variable {cs below : List Candidate} {c : Candidate} {f : Found} {s : Skipped}

/-- Whether the document of a candidate can be loaded. -/
def Candidate.Loads (c : Candidate) : Prop := ∃ w, Document.loadUnresolved c.text = .ok w

/-- What a candidate is skipped with, if its document cannot be loaded. -/
def Candidate.FailsWith (c : Candidate) (s : Skipped) : Prop :=
  ∃ e, Document.loadUnresolved c.text = .error e ∧ s = ⟨c.path, c.source, e.message⟩

/-- **A candidate becomes what was found** under its name; what it shadows is left open. -/
structure Candidate.Becomes (c : Candidate) (f : Found) : Prop where
  /-- Its document was loaded. -/
  loads : Document.loadUnresolved c.text = .ok f.workflow
  /-- It has its metadata. -/
  metadata : f.metadata = c.metadata
  /-- It has its path. -/
  path : f.path = c.path
  /-- It has its source. -/
  source : f.source = c.source

theorem Candidate.FailsWith.not_loads (h : c.FailsWith s) : ¬ c.Loads := by
  obtain ⟨e, he, -⟩ := h
  rintro ⟨w, hw⟩
  rw [he] at hw
  contradiction

theorem Candidate.Becomes.loads' (h : c.Becomes f) : c.Loads := ⟨_, h.loads⟩

/-- **Selection reaches a candidate**: none in front of it can be loaded. -/
def Reaches (cs : List Candidate) (c : Candidate) (below : List Candidate) : Prop :=
  ∃ before, cs = before ++ c :: below ∧ ∀ b ∈ before, ¬ b.Loads

theorem reaches_cons {first : Candidate} {rest : List Candidate} : Reaches (first :: rest) c below ↔
    c = first ∧ below = rest ∨ ¬ first.Loads ∧ Reaches rest c below := by
  constructor
  · rintro ⟨before, hsplit, hfail⟩
    cases before with
    | nil =>
      obtain ⟨rfl, rfl⟩ := List.cons.inj hsplit
      exact .inl ⟨rfl, rfl⟩
    | cons b before =>
      obtain ⟨rfl, hrest⟩ := List.cons.inj hsplit
      obtain ⟨hfirst, hfail⟩ := List.forall_mem_cons.1 hfail
      exact .inr ⟨hfirst, before, hrest, hfail⟩
  · rintro (⟨rfl, rfl⟩ | ⟨hfirst, before, rfl, hfail⟩)
    · exact ⟨[], rfl, nofun⟩
    · exact ⟨first :: before, rfl, List.forall_mem_cons.2 ⟨hfirst, hfail⟩⟩

/-- **What is selected** is the first that can be loaded, with all behind it as shadowed. -/
theorem select_eq_some : (select cs).1 = some f ↔ ∃ c below, Reaches cs c below ∧ c.Becomes f ∧
    f.overrides = below.map Candidate.path := by
  induction cs with
  | nil => simp [select, Reaches]
  | cons first rest ih =>
    rw [select]
    simp only [reaches_cons, or_and_right, exists_or]
    cases hload : Document.loadUnresolved first.text with
    | ok w =>
      constructor
      · intro h
        obtain rfl := Option.some.inj h
        exact .inl ⟨first, rest, ⟨rfl, rfl⟩, ⟨hload, rfl, rfl, rfl⟩, rfl⟩
      · rintro (⟨c, below, ⟨rfl, rfl⟩, hbecomes, hoverrides⟩ | ⟨c, below, ⟨hfirst, -⟩, -⟩)
        · obtain ⟨workflow, metadata, path, source, overrides⟩ := f
          obtain ⟨hw, rfl, rfl, rfl⟩ := hbecomes
          obtain rfl := Except.ok.inj (hload.symm.trans hw)
          obtain rfl := hoverrides
          rfl
        · exact absurd ⟨w, hload⟩ hfirst
    | error e =>
      have hfirst : ¬ first.Loads := Candidate.FailsWith.not_loads ⟨e, hload, rfl⟩
      refine ih.trans ⟨fun ⟨c, below, hreach, h⟩ => .inr ⟨c, below, ⟨hfirst, hreach⟩, h⟩, ?_⟩
      rintro (⟨c, below, ⟨rfl, rfl⟩, hbecomes, -⟩ | ⟨c, below, ⟨-, hreach⟩, h⟩)
      · exact absurd hbecomes.loads' hfirst
      · exact ⟨c, below, hreach, h⟩

/-- Nothing is if none can be loaded. -/
theorem select_eq_none : (select cs).1 = none ↔ ∀ c ∈ cs, ¬ c.Loads := by
  induction cs with
  | nil => simp [select]
  | cons first rest ih =>
    rw [select, List.forall_mem_cons]
    cases hload : Document.loadUnresolved first.text with
    | ok w => simp [Candidate.Loads, hload]
    | error e => simp [Candidate.Loads, hload, ih]

/-- **What is skipped** was tried and cannot be loaded. -/
theorem mem_select_skipped :
    s ∈ (select cs).2 ↔ ∃ c below, Reaches cs c below ∧ c.FailsWith s := by
  induction cs with
  | nil => simp [select, Reaches]
  | cons first rest ih =>
    rw [select]
    simp only [reaches_cons, or_and_right, exists_or]
    cases hload : Document.loadUnresolved first.text with
    | ok w =>
      refine ⟨nofun, ?_⟩
      rintro (⟨c, below, ⟨rfl, rfl⟩, e, he, -⟩ | ⟨c, below, ⟨hfirst, -⟩, -⟩)
      · rw [hload] at he
        contradiction
      · exact absurd ⟨w, hload⟩ hfirst
    | error e =>
      have hfirst : ¬ first.Loads := Candidate.FailsWith.not_loads ⟨e, hload, rfl⟩
      rw [List.mem_cons, ih]
      constructor
      · rintro (rfl | ⟨c, below, hreach, h⟩)
        · exact .inl ⟨first, rest, ⟨rfl, rfl⟩, e, hload, rfl⟩
        · exact .inr ⟨c, below, ⟨hfirst, hreach⟩, h⟩
      · rintro (⟨c, below, ⟨rfl, rfl⟩, e', he', rfl⟩ | ⟨c, below, ⟨-, hreach⟩, h⟩)
        · rw [hload] at he'
          obtain rfl := Except.error.inj he'
          exact .inl rfl
        · exact .inr ⟨c, below, hreach, h⟩

/-- **Every candidate is accounted for once**: it is selected, shadowed or skipped. -/
theorem select_paths_perm (cs : List Candidate) :
    ((select cs).1.toList.flatMap (fun f => f.path :: f.overrides) ++
      (select cs).2.map Skipped.path).Perm (cs.map Candidate.path) := by
  induction cs with
  | nil => exact .refl _
  | cons first rest ih =>
    rw [select]
    cases hload : Document.loadUnresolved first.text with
    | ok w => simp
    | error e => exact List.perm_middle.trans (ih.cons _)

end Stepflow.Discovery

namespace Stepflow.Discovery

variable {p : Place} {places : List Place} {n : String} {c d : Candidate} {cs below : List Candidate}
  {f : Found} {s : Skipped} {o : Outcome} {t : Table (List Candidate)}

/-- **A file is selected under a name**: of the files of the name that can be loaded it is that of the
highest source, and it shadows those of lower ones. -/
structure Selects (places : List Place) (n : String) (f : Found) : Prop where
  /-- It is a file of the name. -/
  defined : ∃ p ∈ places, ∃ c, p.Defines n c ∧ c.Becomes f
  /-- None of a higher source can be loaded. -/
  highest : ∀ p ∈ places, f.source.level < p.source.level → ∀ c, p.Defines n c → ¬ c.Loads
  /-- Those of lower sources are shadowed, the nearest first. -/
  overrides : ∃ shadowed : List Candidate, f.overrides = shadowed.map Candidate.path ∧
    (shadowed.Pairwise fun a b => b.source.level < a.source.level) ∧
      ∀ c, c ∈ shadowed ↔ c.source.level < f.source.level ∧ ∃ p ∈ places, p.Defines n c

/-- **A file is passed over under a name**: it is a file of the name that cannot be loaded, and neither
can any of a higher source. -/
def PassedOver (places : List Place) (n : String) (s : Skipped) : Prop :=
  ∃ p ∈ places, ∃ c, p.Defines n c ∧ c.FailsWith s ∧
    ∀ q ∈ places, p.source.level < q.source.level → ∀ d, q.Defines n d → ¬ d.Loads

/-- The paths of all files in an outcome. -/
def Outcome.paths (o : Outcome) : List String :=
  o.workflows.flatMap (fun e => e.2.path :: e.2.overrides) ++ o.skipped.map Skipped.path

/-! ## Candidates of one name -/

theorem mem_named_ranked : c ∈ named n (ranked places) ↔ ∃ p ∈ places, p.Defines n c := by
  rw [mem_named, ranked, List.mem_flatMap]
  constructor
  · rintro ⟨⟨p, hp, hc⟩, hname⟩
    exact ⟨p, List.mem_reverse.1 hp, mem_named_candidates.1 (mem_named.2 ⟨hc, hname⟩)⟩
  · rintro ⟨p, hp, hdefines⟩
    obtain ⟨hc, hname⟩ := mem_named.1 (mem_named_candidates.2 hdefines)
    exact ⟨⟨p, List.mem_reverse.2 hp, hc⟩, hname⟩

theorem source_of_defines (h : p.Defines n c) : c.source = p.source := by
  obtain ⟨-, -, -, -, -, -, hsource⟩ := h
  exact hsource

/-- **Where nothing clashes**, candidates of one name come from different sources, the highest first. -/
theorem named_ranked_sorted (hs : Searched places) (hnone : places.flatMap Place.conflicts = []) :
    (named n (ranked places)).Pairwise fun a b => b.source.level < a.source.level := by
  have hsplit : named n (ranked places) = places.reverse.flatMap fun p => named n p.candidates :=
    List.filter_flatMap
  rw [hsplit, List.pairwise_flatMap, List.pairwise_reverse]
  refine ⟨fun p hp => ?_, hs.sources.imp fun hlt a ha b hb => ?_⟩
  · have hshort : (named n p.candidates).length ≤ 1 := Nat.le_of_not_lt fun hlong => by
      have hk : ⟨n, p.source, (named n p.candidates).map Candidate.path⟩ ∈ p.conflicts :=
        mem_conflicts.2 ⟨hlong, rfl, rfl⟩
      have hmem := List.mem_flatMap.2 ⟨p, List.mem_reverse.1 hp, hk⟩
      rw [hnone] at hmem
      contradiction
    match hnamed : named n p.candidates with
    | [] => exact .nil
    | [a] => exact List.pairwise_singleton _ _
    | a :: b :: rest => simp [hnamed] at hshort
  · rw [source_of_defines (mem_named_candidates.1 ha), source_of_defines (mem_named_candidates.1 hb)]
    exact hlt

/-- Rows of candidates from different sources, the highest first, are known from what is in them. -/
theorem eq_of_mem_iff {cs ds : List Candidate}
    (h : cs.Pairwise fun a b => b.source.level < a.source.level)
    (h' : ds.Pairwise fun a b => b.source.level < a.source.level) (hmem : ∀ c, c ∈ cs ↔ c ∈ ds) :
    cs = ds := by
  have : Std.Irrefl fun a b : Candidate => b.source.level < a.source.level := ⟨fun _ => Nat.lt_irrefl _⟩
  have : Std.Antisymm fun a b : Candidate => b.source.level < a.source.level :=
    ⟨fun _ _ hab hba => absurd hab (Nat.lt_asymm hba)⟩
  exact h.eq_of_mem_iff h' hmem

/-- **In a row that is split at a candidate**, higher ones are in front and lower ones behind. -/
theorem split_sorted {before : List Candidate}
    (h : cs.Pairwise fun a b => b.source.level < a.source.level) (hcs : cs = before ++ c :: below) :
    (∀ d, d ∈ before ↔ c.source.level < d.source.level ∧ d ∈ cs) ∧
      (below.Pairwise fun a b => b.source.level < a.source.level) ∧
        ∀ d, d ∈ below ↔ d.source.level < c.source.level ∧ d ∈ cs := by
  subst hcs
  obtain ⟨-, hrest, hbefore⟩ := List.pairwise_append.1 h
  obtain ⟨hbelow, hsorted⟩ := List.pairwise_cons.1 hrest
  have habove : ∀ d ∈ before, c.source.level < d.source.level := fun d hd =>
    hbefore d hd c List.mem_cons_self
  refine ⟨fun d => ⟨fun hd => ⟨habove d hd, List.mem_append_left _ hd⟩, ?_⟩, hsorted, fun d =>
    ⟨fun hd => ⟨hbelow d hd, by simp [hd]⟩, ?_⟩⟩
  · rintro ⟨hlt, hd⟩
    obtain hd | hd := List.mem_append.1 hd
    · exact hd
    · obtain rfl | hd := List.mem_cons.1 hd
      · exact absurd hlt (Nat.lt_irrefl _)
      · exact absurd hlt (Nat.lt_asymm (hbelow d hd))
  · rintro ⟨hlt, hd⟩
    obtain hd | hd := List.mem_append.1 hd
    · exact absurd hlt (Nat.lt_asymm (habove d hd))
    · obtain rfl | hd := List.mem_cons.1 hd
      · exact absurd hlt (Nat.lt_irrefl _)
      · exact hd

/-- Selection reaches a candidate if none of a higher source can be loaded. -/
theorem exists_reaches_iff (h : cs.Pairwise fun a b => b.source.level < a.source.level) :
    (∃ below, Reaches cs c below) ↔
      c ∈ cs ∧ ∀ d ∈ cs, c.source.level < d.source.level → ¬ d.Loads := by
  constructor
  · rintro ⟨below, before, hcs, hfail⟩
    have hbefore := (split_sorted h hcs).1
    exact ⟨by simp [hcs], fun d hd hlt => hfail d ((hbefore d).2 ⟨hlt, hd⟩)⟩
  · rintro ⟨hc, hfail⟩
    obtain ⟨before, below, hcs⟩ := List.append_of_mem hc
    have hbefore := (split_sorted h hcs).1
    exact ⟨below, before, hcs, fun d hd => hfail d ((hbefore d).1 hd).2 ((hbefore d).1 hd).1⟩

/-- Behind it are those of lower sources. -/
theorem reaches_iff (h : cs.Pairwise fun a b => b.source.level < a.source.level) :
    Reaches cs c below ↔ (c ∈ cs ∧ ∀ d ∈ cs, c.source.level < d.source.level → ¬ d.Loads) ∧
      (below.Pairwise fun a b => b.source.level < a.source.level) ∧
        ∀ d, d ∈ below ↔ d.source.level < c.source.level ∧ d ∈ cs := by
  constructor
  · rintro hreach
    obtain ⟨before, hcs, -⟩ := id hreach
    exact ⟨(exists_reaches_iff h).1 ⟨below, hreach⟩, (split_sorted h hcs).2⟩
  · rintro ⟨hc, hsorted, hbelow⟩
    obtain ⟨behind, hreach⟩ := (exists_reaches_iff h).2 hc
    obtain ⟨before, hcs, -⟩ := id hreach
    obtain ⟨-, hsorted', hbehind⟩ := split_sorted h hcs
    obtain rfl : behind = below :=
      eq_of_mem_iff hsorted' hsorted fun d => (hbehind d).trans (hbelow d).symm
    exact hreach

/-! ## What is selected and what is skipped -/

theorem higher_fail_iff (hc : p.Defines n c) :
    (∀ d ∈ named n (ranked places), c.source.level < d.source.level → ¬ d.Loads) ↔
      ∀ q ∈ places, p.source.level < q.source.level → ∀ d, q.Defines n d → ¬ d.Loads := by
  rw [source_of_defines hc]
  constructor
  · intro hfail q hq hlt d hd
    exact hfail d (mem_named_ranked.2 ⟨q, hq, hd⟩) (source_of_defines hd ▸ hlt)
  · intro hfail d hd hlt
    obtain ⟨q, hq, hd⟩ := mem_named_ranked.1 hd
    exact hfail q hq (source_of_defines hd ▸ hlt) d hd

theorem select_ranked_iff (hs : Searched places) (hnone : places.flatMap Place.conflicts = []) :
    (select (named n (ranked places))).1 = some f ↔ Selects places n f := by
  rw [select_eq_some]
  simp only [reaches_iff (named_ranked_sorted hs hnone)]
  constructor
  · rintro ⟨c, below, ⟨⟨hc, hfail⟩, hsorted, hbelow⟩, hbecomes, hoverrides⟩
    obtain ⟨p, hp, hdefines⟩ := mem_named_ranked.1 hc
    have hsource : f.source = p.source := hbecomes.source.trans (source_of_defines hdefines)
    refine ⟨⟨p, hp, c, hdefines, hbecomes⟩, ?_, below, hoverrides, hsorted, fun d => ?_⟩
    · rw [hsource]
      exact (higher_fail_iff hdefines).1 hfail
    · rw [hbelow, hbecomes.source, mem_named_ranked]
  · rintro ⟨⟨p, hp, c, hdefines, hbecomes⟩, hfail, below, hoverrides, hsorted, hbelow⟩
    have hsource : f.source = p.source := hbecomes.source.trans (source_of_defines hdefines)
    rw [hsource] at hfail
    refine ⟨c, below, ⟨⟨mem_named_ranked.2 ⟨p, hp, hdefines⟩, (higher_fail_iff hdefines).2 hfail⟩,
      hsorted, fun d => ?_⟩, hbecomes, hoverrides⟩
    rw [hbelow, hbecomes.source, mem_named_ranked]

theorem skipped_ranked_iff (hs : Searched places) (hnone : places.flatMap Place.conflicts = []) :
    s ∈ (select (named n (ranked places))).2 ↔ PassedOver places n s := by
  have hreach := fun c => exists_reaches_iff (c := c) (named_ranked_sorted (n := n) hs hnone)
  rw [mem_select_skipped]
  constructor
  · rintro ⟨c, below, hbelow, hfails⟩
    obtain ⟨hc, hfail⟩ := (hreach c).1 ⟨below, hbelow⟩
    obtain ⟨p, hp, hdefines⟩ := mem_named_ranked.1 hc
    exact ⟨p, hp, c, hdefines, hfails, (higher_fail_iff hdefines).1 hfail⟩
  · rintro ⟨p, hp, c, hdefines, hfails, hfail⟩
    obtain ⟨below, hbelow⟩ := (hreach c).2
      ⟨mem_named_ranked.2 ⟨p, hp, hdefines⟩, (higher_fail_iff hdefines).2 hfail⟩
    exact ⟨c, below, hbelow, hfails⟩

/-! ## All names -/

/-- What holds of a group holds of the candidates of its name. -/
theorem exists_group_iff (h : Groups t cs) {P : List Candidate → Prop} (hnil : ¬ P []) :
    (∃ g, (n, g) ∈ t ∧ P g) ↔ P (named n cs) := by
  constructor
  · rintro ⟨g, hg, hP⟩
    obtain ⟨-, rfl⟩ := h.mem_iff.1 hg
    exact hP
  · intro hP
    exact ⟨_, h.mem_iff.2 ⟨fun heq => hnil (heq ▸ hP), rfl⟩, hP⟩

/-- What was selected, by the names. -/
def chosen (t : Table (List Candidate)) : Table Found :=
  (selections t).filterMap fun e => e.2.1.map (e.1, ·)

/-- What was tried and skipped. -/
def tried (t : Table (List Candidate)) : List Skipped := (selections t).flatMap fun e => e.2.2

theorem mem_chosen (h : Groups t cs) : (n, f) ∈ chosen t ↔ (select (named n cs)).1 = some f := by
  rw [← exists_group_iff h (P := fun g => (select g).1 = some f) (by simp [select]), chosen, selections,
    List.filterMap_map, List.mem_filterMap]
  constructor
  · rintro ⟨⟨m, g⟩, hg, hf⟩
    obtain ⟨f', hf', heq⟩ := Option.map_eq_some_iff.1 hf
    obtain ⟨rfl, rfl⟩ := Prod.mk.inj heq
    exact ⟨g, hg, hf'⟩
  · rintro ⟨g, hg, hf⟩
    exact ⟨(n, g), hg, Option.map_eq_some_iff.2 ⟨f, hf, rfl⟩⟩

theorem mem_tried (h : Groups t cs) : s ∈ tried t ↔ ∃ n, s ∈ (select (named n cs)).2 := by
  simp only [← exists_group_iff h (P := fun g => s ∈ (select g).2) (by simp [select]), tried, selections,
    List.flatMap_map, List.mem_flatMap, Prod.exists]

theorem chosen_sorted (h : t.Sorted) : (chosen t).Sorted := by
  rw [chosen, selections, List.filterMap_map]
  refine List.Pairwise.filterMap _ ?_ h
  rintro ⟨m, g⟩ ⟨m', g'⟩ hlt e he e' he'
  obtain ⟨f, -, rfl⟩ := Option.map_eq_some_iff.1 he
  obtain ⟨f', -, rfl⟩ := Option.map_eq_some_iff.1 he'
  exact hlt

/-- Every candidate is selected, shadowed or skipped. -/
theorem chosen_paths_perm (t : Table (List Candidate)) :
    ((chosen t).flatMap (fun e => e.2.path :: e.2.overrides) ++ (tried t).map Skipped.path).Perm
      ((t.flatMap Prod.snd).map Candidate.path) := by
  induction t with
  | nil => exact .refl _
  | cons e t ih =>
    obtain ⟨n, g⟩ := e
    have hchosen : (chosen ((n, g) :: t)).flatMap (fun e => e.2.path :: e.2.overrides) =
        (select g).1.toList.flatMap (fun f => f.path :: f.overrides) ++
          (chosen t).flatMap fun e => e.2.path :: e.2.overrides := by
      unfold chosen selections
      cases hselect : (select g).1 <;> simp [hselect]
    have htried : (tried ((n, g) :: t)).map Skipped.path =
        (select g).2.map Skipped.path ++ (tried t).map Skipped.path := by
      simp [tried, selections]
    rw [hchosen, htried, List.flatMap_cons, List.map_append, List.append_assoc]
    refine ((List.perm_append_comm_assoc _ _ _).append_left _).trans ?_
    rw [← List.append_assoc]
    exact (select_paths_perm g).append ih

/-- Every file is a candidate or unreadable. -/
theorem files_perm (places : List Place) : ((ranked places).map Candidate.path ++
    (places.flatMap Place.unreadable).map Skipped.path).Perm (places.flatMap Place.paths) := by
  induction places with
  | nil => exact .refl _
  | cons p places ih =>
    have hranked : ranked (p :: places) = ranked places ++ p.candidates := by simp [ranked]
    rw [hranked, List.flatMap_cons, List.flatMap_cons, List.map_append, List.map_append,
      List.append_assoc, ← List.append_assoc (p.candidates.map Candidate.path)]
    exact (List.perm_append_comm_assoc _ _ _).trans ((paths_perm p).append ih)

/-- **Discovery selects by precedence and loses no file.** Every file is selected, shadowed or skipped,
and that once; under each name there is what is to be selected, and nothing if no file of the name can be
loaded; what is skipped are the files that cannot be read and those that were passed over; and the order
in which entries are listed does not matter. -/
theorem discover_selects (hs : Searched places) (h : discover places = .ok o) :
    o.paths.Perm (places.flatMap Place.paths) ∧ o.workflows.Sorted ∧
      (∀ n f, o.workflows.get? n = some f ↔ Selects places n f) ∧
      (∀ n, o.workflows.get? n = none ↔ ∀ p ∈ places, ∀ c, p.Defines n c → ¬ c.Loads) ∧
      (∀ s, s ∈ o.skipped ↔ (∃ p ∈ places, p.Unreadable s) ∨ ∃ n, PassedOver places n s) ∧
      ∀ others, List.Forall₂ Place.Alike places others → discover others = .ok o := by
  obtain ⟨hnone, hworkflows, hskipped⟩ := discover_eq_ok.1 h
  have hgroups := groups_ranked places
  have hworkflows : o.workflows = chosen (places.foldl rank []) := hworkflows
  have hskipped : o.skipped = places.flatMap Place.unreadable ++ tried (places.foldl rank []) := hskipped
  have hsorted : o.workflows.Sorted := hworkflows ▸ chosen_sorted hgroups.sorted
  have hfind : ∀ n f, o.workflows.get? n = some f ↔ (select (named n (ranked places))).1 = some f :=
    fun n f => by rw [Table.get?_eq_some_iff hsorted, hworkflows, mem_chosen hgroups]
  refine ⟨?_, hsorted, fun n f => (hfind n f).trans (select_ranked_iff hs hnone), fun n => ?_, fun s => ?_,
    fun others hothers => (discover_congr hs.distinct hothers).trans h⟩
  · have hfound := (chosen_paths_perm (places.foldl rank [])).trans
      (hgroups.all.map Candidate.path)
    rw [Outcome.paths, hworkflows, hskipped, List.map_append]
    refine (List.perm_append_comm.append_left _).trans ?_
    rw [← List.append_assoc]
    exact (hfound.append_right _).trans (files_perm places)
  · have hget : o.workflows.get? n = (select (named n (ranked places))).1 := Option.ext (hfind n)
    rw [hget, select_eq_none]
    exact ⟨fun hfail p hp c hc => hfail c (mem_named_ranked.2 ⟨p, hp, hc⟩), fun hfail c hc => by
      obtain ⟨p, hp, hdefines⟩ := mem_named_ranked.1 hc
      exact hfail p hp c hdefines⟩
  · rw [hskipped, List.mem_append, List.mem_flatMap, mem_tried hgroups]
    simp only [mem_unreadable, skipped_ranked_iff hs hnone]

end Stepflow.Discovery

namespace Stepflow.Sample

open Discovery

/-- A document that has a name and cannot be loaded. -/
def stub : String := "version: \"1.0\"\nname: wf\nsteps: 5\n"

/-- One that can. -/
def sound : String :=
  "version: \"1.0\"\nname: wf\nsteps:\n- name: a\n  type: python\n  action: echo\n"

/-- What both say of themselves. -/
def summary : Metadata := { name := "wf", version := "1.0", description := "", inputs := [] }

/-- The place of a source with one file in it. -/
def placed (source : Source) (path text : String) : Discovery.Place :=
  { source, path, entries := [("a.yaml", .file (.text text))] }

/-- The candidate that the file is. -/
def candidate (source : Source) (path text : String) : Candidate :=
  { metadata := summary, path := FilePath.join path "a.yaml", source, text }

theorem placed_defines {source : Source} {path text : String} {c : Candidate}
    (htext : Metadata.ofText? text = some summary) :
    (placed source path text).Defines "wf" c ↔ c = candidate source path text := by
  obtain ⟨metadata, path', source', text'⟩ := c
  constructor
  · rintro ⟨name, he, -, hread, -, hpath, hsource⟩
    obtain ⟨rfl, hfile⟩ := Prod.mk.inj (List.mem_singleton.1 he)
    obtain rfl := Content.text.inj (Files.file.inj hfile)
    obtain rfl := Option.some.inj (hread.symm.trans htext)
    obtain rfl : path' = FilePath.join path "a.yaml" := hpath
    obtain rfl : source' = source := hsource
    rfl
  · intro hc
    obtain ⟨rfl, rfl, rfl, rfl⟩ := Candidate.mk.inj hc
    exact ⟨"a.yaml", List.mem_singleton_self _, by decide, htext, rfl, rfl, rfl⟩

/-- A file of one name in every source; only that of the user can be loaded. -/
def threefold : List Discovery.Place :=
  [placed .builtin "/b" stub, placed .user "/u" sound, placed .project "/p" stub]

theorem threefold_searched : Searched threefold where
  sources := by decide
  distinct := by decide
  single := by decide

theorem threefold_conflicts : threefold.flatMap Discovery.Place.conflicts = [] := by
  rw [List.flatMap_eq_nil_iff]
  simp only [threefold, List.forall_mem_cons, List.not_mem_nil, false_implies, implies_true, and_true]
  exact ⟨conflicts_of_single (by decide), conflicts_of_single (by decide), conflicts_of_single (by decide)⟩

theorem stub_not_loads {source : Source} {path : String} : ¬ (candidate source path stub).Loads := by
  have hnone : (Document.loadUnresolved stub).toOption.isSome = false := by decide +kernel
  rintro ⟨w, hw⟩
  have hw : Document.loadUnresolved stub = .ok w := hw
  rw [hw] at hnone
  contradiction

theorem sound_loads : ∃ w, Document.loadUnresolved sound = .ok w := by
  have hsome : (Document.loadUnresolved sound).toOption.isSome = true := by decide +kernel
  cases hload : Document.loadUnresolved sound with
  | ok w => exact ⟨w, rfl⟩
  | error e =>
    rw [hload] at hsome
    contradiction

/-- **What is selected among them**: the file of the user, which shadows the one below. -/
theorem threefold_selects {w : Workflow} (hw : Document.loadUnresolved sound = .ok w) :
    Selects threefold "wf" ⟨w, summary, "/u/a.yaml", .user, ["/b/a.yaml"]⟩ := by
  have hstub : Metadata.ofText? stub = some summary := by decide +kernel
  have hsound : Metadata.ofText? sound = some summary := by decide +kernel
  refine ⟨⟨_, by simp [threefold], candidate .user "/u" sound, (placed_defines hsound).2 rfl,
    hw, rfl, rfl, rfl⟩, ?_, [candidate .builtin "/b" stub], rfl, List.pairwise_singleton _ _, ?_⟩
  · simp only [threefold, List.forall_mem_cons, List.not_mem_nil, false_implies, implies_true, and_true]
    refine ⟨fun h => absurd h (by decide), fun h => absurd h (by decide), fun _ c hc => ?_⟩
    rw [(placed_defines hstub).1 hc]
    exact stub_not_loads
  · intro c
    simp only [threefold, List.mem_cons, List.not_mem_nil, or_false, or_and_right, exists_or,
      exists_eq_left, placed_defines hstub, placed_defines hsound]
    constructor
    · rintro rfl
      exact ⟨by decide, .inl rfl⟩
    · rintro ⟨hlt, rfl | rfl | rfl⟩
      · rfl
      · exact absurd hlt (by decide)
      · exact absurd hlt (by decide)

end Stepflow.Sample

namespace Stepflow.Discovery

open Sample

/-- The file of the user is selected and shadows the one that comes with the program. -/
theorem discover_selects_shadowing : ∃ o f, discover threefold = .ok o ∧ o.workflows.get? "wf" = some f ∧
    f.path = "/u/a.yaml" ∧ f.overrides = ["/b/a.yaml"] := by
  obtain ⟨w, hw⟩ := sound_loads
  let o : Outcome := {
    workflows := chosen (threefold.foldl rank [])
    skipped := threefold.flatMap Place.unreadable ++ tried (threefold.foldl rank []) }
  have ho : discover threefold = .ok o := discover_eq_ok.2 ⟨threefold_conflicts, rfl, rfl⟩
  obtain ⟨-, -, hselects, -⟩ := discover_selects threefold_searched ho
  exact ⟨o, _, ho, (hselects _ _).2 (threefold_selects hw), rfl, rfl⟩

end Stepflow.Discovery
