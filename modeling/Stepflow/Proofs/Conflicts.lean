import Mathlib.Data.List.Forall2
import Mathlib.Data.List.Sort
import Stepflow.Proofs.Discovery.Reading
import Stepflow.Proofs.Document.Order

/-!
# The conflicts that discovery reports

Discovery fails exactly if some source defines a name by several files. What it reports then are these
sources and names, each once and in order, with all of the files: nothing else about the files matters,
nor do other sources, nor the order in which directories list their entries.
-/

/-!
## Candidates by their names

Candidates are put in groups by their names, first those of each place and then those of all places, where
the groups of a higher place go in front. No candidate is lost or repeated by this, and those of one name
stay in order (`Groups`). What the groups of a place are is what conflicts are read from (`mem_conflicts`).
-/

namespace Stepflow.Discovery

variable {t groups : Table (List Candidate)} {cs ds g : List Candidate} {c : Candidate} {n m : String}
  {p : Place} {places : List Place} {k : Conflict}

/-- The candidates of a name, in their order. -/
def named (n : String) (cs : List Candidate) : List Candidate := cs.filter fun c => c.metadata.name = n

theorem mem_named : c ∈ named n cs ↔ c ∈ cs ∧ c.metadata.name = n := by
  simp [named]

theorem named_append (n : String) (cs ds : List Candidate) :
    named n (cs ++ ds) = named n cs ++ named n ds := List.filter_append _ _

/-- **A table holds the groups of candidates**: under each name those of the name, in their order, and
nothing under a name that none has. -/
structure Groups (t : Table (List Candidate)) (cs : List Candidate) : Prop where
  /-- The names are in order. -/
  sorted : t.Sorted
  /-- Under a name are the candidates of the name. -/
  find : ∀ n, (t.get? n).getD [] = named n cs
  /-- No group is empty. -/
  inhabited : ∀ n, t.get? n ≠ some []
  /-- All groups together are the candidates. -/
  all : (t.flatMap Prod.snd).Perm cs

namespace Groups

theorem nil : Groups [] [] where
  sorted := .nil
  find _ := rfl
  inhabited := nofun
  all := .refl _

theorem get?_eq_some_iff (h : Groups t cs) : t.get? n = some g ↔ g ≠ [] ∧ g = named n cs := by
  have hfind := h.find n
  have hinhabited := h.inhabited n
  cases hget : t.get? n with
  | none =>
    rw [hget] at hfind
    refine ⟨nofun, ?_⟩
    rintro ⟨hne, rfl⟩
    exact absurd hfind.symm hne
  | some g' =>
    rw [hget, Option.getD_some] at hfind
    rw [hget] at hinhabited
    constructor
    · rintro h
      obtain rfl := Option.some.inj h
      exact ⟨fun hnil => hinhabited (congrArg some hnil), hfind⟩
    · rintro ⟨-, rfl⟩
      rw [hfind]

theorem mem_iff (h : Groups t cs) : (n, g) ∈ t ↔ g ≠ [] ∧ g = named n cs := by
  rw [← Table.get?_eq_some_iff h.sorted, h.get?_eq_some_iff]

end Groups

/-! ## Putting in -/

/-- All entries together, after one was put in. -/
theorem flatMap_insert_perm (h : t.Sorted) :
    ((t.insert n g).flatMap Prod.snd ++ (t.get? n).getD []).Perm (g ++ t.flatMap Prod.snd) := by
  have hperm := (Table.insert_perm h n g).flatMap_right Prod.snd
  rw [List.flatMap_append] at hperm
  cases hget : t.get? n with
  | none => simpa [hget] using hperm
  | some g' => simpa [hget] using hperm

/-- A candidate goes behind those of its name. -/
theorem Groups.gather (h : Groups t cs) (c : Candidate) : Groups (gather t c) (cs ++ [c]) where
  sorted := Table.sorted_insert h.sorted
  find m := by
    rw [Discovery.gather, Table.get?_insert, named_append]
    split
    · rename_i hm
      rw [Option.getD_some, h.find, hm, named, named, List.filter_cons_of_pos (by simpa using hm)]
      rfl
    · rename_i hm
      rw [h.find, named, named, List.filter_cons_of_neg (by simpa using hm), List.filter_nil,
        List.append_nil]
  inhabited m := by
    rw [Discovery.gather, Table.get?_insert]
    split
    · simp
    · exact h.inhabited m
  all := by
    have hperm := flatMap_insert_perm (n := c.metadata.name)
      (g := (t.get? c.metadata.name).getD [] ++ [c]) h.sorted
    rw [List.append_assoc] at hperm
    have hall : (cs ++ [c]).Perm ([c] ++ t.flatMap Prod.snd) :=
      List.perm_append_comm.trans (h.all.symm.append_left _)
    exact (List.perm_append_right_iff _).1
      (hperm.trans ((hall.symm.append_left _).trans List.perm_append_comm))

/-- **The groups of a place** are those of its candidates. -/
theorem Place.groups_groups (p : Place) : Groups p.groups p.candidates := by
  have hfold : ∀ ds t cs, Groups t cs → Groups (ds.foldl Discovery.gather t) (cs ++ ds) := by
    intro ds
    induction ds with
    | nil =>
      intro t cs h
      rwa [List.append_nil]
    | cons d ds ih =>
      intro t cs h
      rw [List.append_cons]
      exact ih _ _ (h.gather d)
  exact hfold p.candidates [] [] .nil

/-! ## Ranking -/

/-- Puts a group in front of that of the same name. -/
def stack (t : Table (List Candidate)) (e : String × List Candidate) : Table (List Candidate) :=
  t.insert e.1 (e.2 ++ (t.get? e.1).getD [])

theorem stack_perm {e : String × List Candidate} (h : t.Sorted) :
    ((stack t e).flatMap Prod.snd).Perm (e.2 ++ t.flatMap Prod.snd) := by
  have hperm := flatMap_insert_perm (n := e.1) (g := e.2 ++ (t.get? e.1).getD []) h
  rw [List.append_assoc] at hperm
  refine (List.perm_append_right_iff _).1 (hperm.trans ?_)
  rw [List.append_assoc]
  exact List.perm_append_comm.append_left _

/-- **Groups put in front of others**: under each name are first those of the one and then those of the
other table, and none is lost or repeated. -/
structure Stacked (groups t r : Table (List Candidate)) : Prop where
  /-- The names are in order. -/
  sorted : r.Sorted
  /-- The groups of a name are put together. -/
  find : ∀ n, (r.get? n).getD [] = (groups.get? n).getD [] ++ (t.get? n).getD []
  /-- No group is empty. -/
  inhabited : ∀ n, r.get? n ≠ some []
  /-- All are there. -/
  all : (r.flatMap Prod.snd).Perm (groups.flatMap Prod.snd ++ t.flatMap Prod.snd)

theorem foldl_stack (hgroups : groups.Sorted) (hne : ∀ e ∈ groups, e.2 ≠ []) (ht : t.Sorted)
    (hinhabited : ∀ n, t.get? n ≠ some []) : Stacked groups t (groups.foldl stack t) := by
  induction groups generalizing t with
  | nil => exact ⟨ht, fun _ => rfl, hinhabited, .refl _⟩
  | cons e groups ih =>
    obtain ⟨k, g⟩ := e
    obtain ⟨hfirst, hrest⟩ := List.pairwise_cons.1 hgroups
    have hstep : ∀ m, (stack t (k, g)).get? m ≠ some [] := fun m => by
      rw [stack, Table.get?_insert]
      split
      · simpa using fun h : g = [] => absurd h (hne _ List.mem_cons_self)
      · exact hinhabited m
    have h := ih (t := stack t (k, g)) hrest (fun e he => hne e (List.mem_cons_of_mem _ he))
      (Table.sorted_insert ht) hstep
    refine ⟨h.sorted, fun m => ?_, h.inhabited, ?_⟩
    · rw [List.foldl_cons, h.find, stack, Table.get?_insert, Table.get?]
      by_cases hk : k = m
      -- the name does not come again
      · subst hk
        rw [if_pos rfl, if_pos rfl, Table.get?_eq_none_of_lt hfirst]
        rfl
      · rw [if_neg hk, if_neg hk]
    · have hall : (groups.flatMap Prod.snd ++ (stack t (k, g)).flatMap Prod.snd).Perm
          (((k, g) :: groups).flatMap Prod.snd ++ t.flatMap Prod.snd) := by
        rw [List.flatMap_cons, List.append_assoc]
        exact ((stack_perm ht).append_left _).trans (List.perm_append_comm_assoc _ _ _)
      exact h.all.trans hall

/-- **A higher place goes in front.** -/
theorem Groups.rank (h : Groups t cs) (p : Place) : Groups (rank t p) (p.candidates ++ cs) := by
  have hp := p.groups_groups
  have hstacked := foldl_stack hp.sorted (fun e he => (hp.mem_iff.1 he).1) h.sorted h.inhabited
  have hrank : Discovery.rank t p = p.groups.foldl stack t := rfl
  rw [hrank]
  refine ⟨hstacked.sorted, fun n => ?_, hstacked.inhabited, hstacked.all.trans (hp.all.append h.all)⟩
  rw [hstacked.find, hp.find, h.find, named_append]

/-- All candidates, those of the highest place first. -/
def ranked (places : List Place) : List Candidate := places.reverse.flatMap Place.candidates

/-- **The ranked groups** are those of all candidates. -/
theorem groups_ranked (places : List Place) : Groups (places.foldl rank []) (ranked places) := by
  have hfold : ∀ places t cs, Groups t cs → Groups (places.foldl Discovery.rank t) (ranked places ++ cs) := by
    intro places
    induction places with
    | nil => exact fun t cs h => h
    | cons p places ih =>
      intro t cs h
      have hranked : ranked (p :: places) ++ cs = ranked places ++ (p.candidates ++ cs) := by
        simp [ranked]
      rw [hranked]
      exact ih _ _ (h.rank p)
  simpa using hfold places [] [] .nil

/-! ## Conflicts -/

/-- **Conflicts of a place** are the names of several candidates. -/
theorem mem_conflicts : k ∈ p.conflicts ↔ 1 < (named k.name p.candidates).length ∧
    k.source = p.source ∧ k.paths = (named k.name p.candidates).map Candidate.path := by
  obtain ⟨name, source, paths⟩ := k
  rw [Place.conflicts, List.mem_filterMap]
  constructor
  · rintro ⟨⟨n, g⟩, he, hk⟩
    obtain ⟨-, rfl⟩ := p.groups_groups.mem_iff.1 he
    obtain ⟨hlong, hk⟩ := Option.ite_none_right_eq_some.1 hk
    obtain ⟨rfl, rfl, rfl⟩ := Conflict.mk.inj (Option.some.inj hk)
    exact ⟨hlong, rfl, rfl⟩
  · rintro ⟨hlong, hsource, hpaths⟩
    refine ⟨(name, named name p.candidates), p.groups_groups.mem_iff.2 ⟨?_, rfl⟩,
      Option.ite_none_right_eq_some.2 ⟨hlong, ?_⟩⟩
    · exact List.ne_nil_of_length_pos (Nat.lt_of_succ_lt hlong)
    · rw [show source = p.source from hsource, show paths = _ from hpaths]

/-- A place with one entry at most has no conflicts. -/
theorem conflicts_of_single (h : p.entries.length ≤ 1) : p.conflicts = [] := by
  refine List.eq_nil_iff_forall_not_mem.2 fun k hk => ?_
  have hlong := (mem_conflicts.1 hk).1
  have hfiles : (documents p.entries).length ≤ p.entries.length := by
    rw [documents, List.length_mergeSort]
    exact List.length_filterMap_le _ _
  have hcandidates : p.candidates.length ≤ (documents p.entries).length := by
    rw [Place.candidates, Place.readings]
    exact (List.length_filterMap_le _ _).trans_eq (List.length_map _)
  have hnamed : (named k.name p.candidates).length ≤ p.candidates.length := List.length_filter_le _ _
  omega

/-- They come in the order of their names. -/
theorem conflicts_sorted (p : Place) : p.conflicts.Pairwise fun a b => a.name < b.name := by
  refine p.groups_groups.sorted.filterMap _ ?_
  rintro ⟨n, g⟩ ⟨n', g'⟩ hlt a ha b hb
  obtain ⟨-, ha⟩ := Option.ite_none_right_eq_some.1 ha
  obtain ⟨-, hb⟩ := Option.ite_none_right_eq_some.1 hb
  obtain rfl := Option.some.inj ha
  obtain rfl := Option.some.inj hb
  exact hlt

end Stepflow.Discovery

/-!
## How discovery ends

Discovery fails exactly if some place defines a name by two of its files, and in what order directories
list their entries does not matter to it.
-/

namespace Stepflow.Discovery

variable {p q : Place} {places others : List Place} {n : String} {c : Candidate} {cs : List Candidate}
  {k : Conflict} {ks : List Conflict} {o : Outcome}

/-- A place defines a name by two different files. -/
def Place.Clashes (p : Place) (n : String) : Prop :=
  ∃ c d, p.Defines n c ∧ p.Defines n d ∧ c.path ≠ d.path

theorem mem_named_candidates : c ∈ named n p.candidates ↔ p.Defines n c := by
  rw [mem_named, mem_candidates]
  constructor
  · rintro ⟨hdefines, rfl⟩
    exact hdefines
  · rintro hdefines
    obtain ⟨-, -, -, -, rfl, -⟩ := id hdefines
    exact ⟨hdefines, rfl⟩

theorem named_sorted (hn : (p.entries.map Prod.fst).Nodup)
    (hsingle : ∀ e ∈ p.entries, '/' ∉ e.1.toList) (n : String) :
    (named n p.candidates).Pairwise fun a b => a.path < b.path :=
  (candidates_sorted hn hsingle).filter _

/-- **A name clashes** if it has several candidates. -/
theorem clashes_iff (hn : (p.entries.map Prod.fst).Nodup)
    (hsingle : ∀ e ∈ p.entries, '/' ∉ e.1.toList) :
    p.Clashes n ↔ 1 < (named n p.candidates).length := by
  constructor
  · rintro ⟨c, d, hc, hd, hne⟩
    rw [← mem_named_candidates] at hc hd
    refine Nat.lt_of_not_le fun hshort => hne ?_
    obtain ⟨a, ha⟩ := List.length_eq_one_iff.1
      (Nat.le_antisymm hshort (List.length_pos_of_mem hc))
    rw [ha, List.mem_singleton] at hc hd
    rw [hc, hd]
  · intro hlong
    have hsorted := named_sorted hn hsingle n
    have hdefines : ∀ c ∈ named n p.candidates, p.Defines n c := fun c => mem_named_candidates.1
    match hnamed : named n p.candidates with
    | [] => simp [hnamed] at hlong
    | [a] => simp [hnamed] at hlong
    | a :: b :: rest =>
      rw [hnamed] at hsorted hdefines
      have hlt := List.rel_of_pairwise_cons hsorted List.mem_cons_self
      exact ⟨a, b, hdefines a (by simp), hdefines b (by simp), fun heq => String.lt_irrefl _ (heq ▸ hlt)⟩

/-! ### Failing -/

theorem discover_eq_error :
    discover places = .error ks ↔
      places.flatMap Place.conflicts ≠ [] ∧ places.flatMap Place.conflicts = ks := by
  unfold discover
  by_cases hnone : places.flatMap Place.conflicts = []
  · simp [hnone]
  · simp [hnone]

/-- What discovery finds in groups of candidates, by their names. -/
def selections (t : Table (List Candidate)) : List (String × Option Found × List Skipped) :=
  t.map fun e => (e.1, select e.2)

theorem discover_eq_ok : discover places = .ok o ↔ places.flatMap Place.conflicts = [] ∧
    o.workflows = (selections (places.foldl rank [])).filterMap (fun e => e.2.1.map (e.1, ·)) ∧
    o.skipped = places.flatMap Place.unreadable ++
      (selections (places.foldl rank [])).flatMap fun e => e.2.2 := by
  obtain ⟨workflows, skipped⟩ := o
  unfold discover
  by_cases hnone : places.flatMap Place.conflicts = []
  · simp [hnone, selections, eq_comm]
  · simp [hnone]

/-! ### What does not matter -/

theorem candidates_congr (h : p.readings = q.readings) : p.candidates = q.candidates := by
  rw [Place.candidates, h]
  rfl

theorem groups_congr (h : p.readings = q.readings) : p.groups = q.groups := by
  rw [Place.groups, candidates_congr h]
  rfl

theorem conflicts_congr (hsource : p.source = q.source) (h : p.readings = q.readings) :
    p.conflicts = q.conflicts := by
  rw [Place.conflicts, groups_congr h, hsource]
  rfl

/-- **In what order directories list their entries** does not matter. -/
theorem discover_congr (hn : ∀ p ∈ places, (p.entries.map Prod.fst).Nodup)
    (h : List.Forall₂ Place.Alike places others) : discover others = discover places := by
  have hparts : others.flatMap Place.conflicts = places.flatMap Place.conflicts ∧
      others.flatMap Place.unreadable = places.flatMap Place.unreadable ∧
      ∀ t, others.foldl rank t = places.foldl rank t := by
    induction h with
    | nil => exact ⟨rfl, rfl, fun _ => rfl⟩
    | @cons p q places others hpq _ ih =>
      obtain ⟨hp, hplaces⟩ := List.forall_mem_cons.1 hn
      obtain ⟨hconflicts, hunreadable, hrank⟩ := ih hplaces
      have hread := readings_congr hp hpq
      refine ⟨?_, ?_, fun t => ?_⟩
      · rw [List.flatMap_cons, List.flatMap_cons, hconflicts, conflicts_congr hpq.source hread]
      · rw [List.flatMap_cons, List.flatMap_cons, hunreadable, Place.unreadable, Place.unreadable, hread]
      · rw [List.foldl_cons, List.foldl_cons, hrank, rank, rank, groups_congr hread]
  unfold discover
  rw [hparts.1, hparts.2.1, hparts.2.2]

end Stepflow.Discovery

namespace Stepflow.Discovery

variable {p : Place} {places : List Place} {k : Conflict}

/-- **A conflict of a place** is a name that clashes in it, with the paths of all files that define the
name, in order. -/
theorem mem_conflicts_iff (hn : (p.entries.map Prod.fst).Nodup)
    (hsingle : ∀ e ∈ p.entries, '/' ∉ e.1.toList) : k ∈ p.conflicts ↔ p.Clashes k.name ∧
      k.source = p.source ∧ k.paths.Pairwise (· < ·) ∧
        ∀ x, x ∈ k.paths ↔ ∃ c, p.Defines k.name c ∧ c.path = x := by
  have hsorted : ((named k.name p.candidates).map Candidate.path).Pairwise (· < ·) :=
    List.pairwise_map.2 (named_sorted hn hsingle k.name)
  have hmem : ∀ x, x ∈ (named k.name p.candidates).map Candidate.path ↔
      ∃ c, p.Defines k.name c ∧ c.path = x := fun x => by
    simp only [List.mem_map, mem_named_candidates]
  rw [mem_conflicts, clashes_iff hn hsingle]
  refine and_congr_right fun _ => and_congr_right fun _ => ⟨?_, ?_⟩
  · rintro hpaths
    rw [hpaths]
    exact ⟨hsorted, hmem⟩
  · rintro ⟨hk, hpaths⟩
    exact hk.eq_of_mem_iff hsorted fun x => (hpaths x).trans (hmem x).symm

/-- Conflicts come in the order of their sources, and those of one source in the order of their names. -/
theorem flatMap_conflicts_sorted (hs : Searched places) : (places.flatMap Place.conflicts).Pairwise
    fun a b => a.source.level < b.source.level ∨ a.source = b.source ∧ a.name < b.name := by
  have hsource : ∀ {p k}, k ∈ Place.conflicts p → k.source = p.source := fun hk =>
    (mem_conflicts.1 hk).2.1
  refine List.pairwise_flatMap.2 ⟨fun p _ => ?_, hs.sources.imp fun hlt a ha b hb => ?_⟩
  · refine (conflicts_sorted p).imp_of_mem fun ha hb hlt => .inr ⟨?_, hlt⟩
    rw [hsource ha, hsource hb]
  · rw [hsource ha, hsource hb]
    exact .inl hlt

/-- **Discovery reports exactly the conflicts.** It fails if and only if some place has a name that
clashes; then there is one conflict for each place and each such name, in order, with the paths of all
files of the place that define the name; and the order in which entries are listed does not matter. -/
theorem discover_conflicts (hs : Searched places) :
    ((∃ ks, discover places = .error ks) ↔ ∃ p ∈ places, ∃ n, p.Clashes n) ∧
      (∀ ks, discover places = .error ks →
        (ks.Pairwise fun a b => a.source.level < b.source.level ∨ a.source = b.source ∧ a.name < b.name) ∧
          ∀ k, k ∈ ks ↔ ∃ p ∈ places, p.Clashes k.name ∧ k.source = p.source ∧
            k.paths.Pairwise (· < ·) ∧ ∀ x, x ∈ k.paths ↔ ∃ c, p.Defines k.name c ∧ c.path = x) ∧
      ∀ others, List.Forall₂ Place.Alike places others → discover others = discover places := by
  refine ⟨⟨?_, ?_⟩, fun ks hks => ?_, fun others h => discover_congr hs.distinct h⟩
  · rintro ⟨ks, hks⟩
    obtain ⟨k, hk⟩ := List.exists_mem_of_ne_nil _ (discover_eq_error.1 hks).1
    obtain ⟨p, hp, hk⟩ := List.mem_flatMap.1 hk
    exact ⟨p, hp, k.name, ((mem_conflicts_iff (hs.distinct p hp) (hs.single p hp)).1 hk).1⟩
  · rintro ⟨p, hp, n, hn⟩
    have hk : ⟨n, p.source, (named n p.candidates).map Candidate.path⟩ ∈ p.conflicts :=
      mem_conflicts.2 ⟨(clashes_iff (hs.distinct p hp) (hs.single p hp)).1 hn, rfl, rfl⟩
    exact ⟨_, discover_eq_error.2 ⟨List.ne_nil_of_mem (List.mem_flatMap.2 ⟨p, hp, hk⟩), rfl⟩⟩
  · obtain ⟨-, rfl⟩ := discover_eq_error.1 hks
    refine ⟨flatMap_conflicts_sorted hs, fun k => List.mem_flatMap.trans ?_⟩
    exact exists_congr fun p => and_congr_right fun hp =>
      mem_conflicts_iff (hs.distinct p hp) (hs.single p hp)

end Stepflow.Discovery

namespace Stepflow.Sample

open Discovery

/-- A document that has a name and cannot be loaded. -/
def brief (name : String) : Files :=
  .file (.text ("version: \"1.0\"\nname: " ++ name ++ "\nsteps: 5\n"))

/-- A directory of the user with two files of one name. -/
def crowded : Discovery.Place where
  source := .user
  path := "/u"
  entries := [("a.yml", brief "wf"), ("b.yaml", brief "wf"), ("c.txt", brief "wf"),
    ("d.yaml", brief "other")]

/-- One of the project with another file of this name. -/
def lonely : Discovery.Place := { source := .project, path := "/p", entries := [("b.yaml", brief "wf")] }

theorem crowded_conflicts : crowded.conflicts = [⟨"wf", .user, ["/u/a.yml", "/u/b.yaml"]⟩] := by
  rw [Discovery.Place.conflicts, Discovery.Place.groups, Discovery.Place.candidates,
    Discovery.Place.readings, documents_of_sorted (by decide)]
  decide +kernel

theorem crowded_searched : Searched [crowded, lonely] where
  sources := by decide
  distinct := by decide
  single := by decide

end Stepflow.Sample

/-! ## What is reported -/

namespace Stepflow.Discovery

open Sample

/-- The one clash is reported with its two files, also where these are listed the other way round. -/
theorem discover_conflicts_crowded :
    (∃ p ∈ [crowded, lonely], p.Clashes "wf" ∧ Source.user = p.source) ∧
      discover [{ crowded with entries := crowded.entries.reverse }, lonely] =
        .error [⟨"wf", .user, ["/u/a.yml", "/u/b.yaml"]⟩] := by
  have herror : discover [crowded, lonely] = .error [⟨"wf", .user, ["/u/a.yml", "/u/b.yaml"]⟩] := by
    refine discover_eq_error.2 ⟨?_, ?_⟩ <;>
      simp [List.flatMap_cons, crowded_conflicts, conflicts_of_single (p := lonely) (by decide)]
  obtain ⟨-, hexact, hcongr⟩ := discover_conflicts crowded_searched
  obtain ⟨p, hp, hclash, hsource, -⟩ := ((hexact _ herror).2 _).1 (List.mem_singleton_self _)
  refine ⟨⟨p, hp, hclash, hsource⟩, (hcongr _ ?_).trans herror⟩
  exact .cons ⟨rfl, rfl, (List.reverse_perm _).symm⟩ (.cons ⟨rfl, rfl, .refl _⟩ .nil)

end Stepflow.Discovery
