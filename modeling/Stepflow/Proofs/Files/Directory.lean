import Mathlib.Data.List.Nodup
import Mathlib.Data.List.Perm.Subperm
import Stepflow.Checkpoint.Store
import Stepflow.Proofs.Files.Tree

/-!
# Directories and the names in them

What names of files are in the paths that end with them, and what becomes of a directory in which
something is written or removed.
-/

/-!
## Names of files

A name without a solidus is the last one in its path. A path below a directory is the directory's with
the name behind it, so different names lead to different paths, in the order of the names.
-/

namespace Stepflow

namespace FilePath

open Text

variable {base name other ext : String} {stem tail : List Char}

/-! ## Extensions -/

/-- What is written behind the last point is the extension. -/
theorem extensionOf?_append (hstem : stem ≠ []) (htail : tail ≠ []) (hpoint : '.' ∉ tail) :
    extensionOf? (stem ++ '.' :: tail) = some tail := by
  have hrev : (stem ++ '.' :: tail).reverse = tail.reverse ++ '.' :: stem.reverse := by simp
  have hall : ∀ c ∈ tail.reverse, decide (c ≠ '.') = true := fun c hc =>
    decide_eq_true fun h => hpoint (List.mem_reverse.1 (h ▸ hc))
  have htake : (stem ++ '.' :: tail).reverse.takeWhile (· ≠ '.') = tail.reverse := by
    rw [hrev, List.takeWhile_append_of_pos hall, List.takeWhile_cons_of_neg (by simp), List.append_nil]
  have hdrop : ((stem ++ '.' :: tail).reverse.drop (tail.length + 1)).reverse = stem := by
    rw [hrev, ← List.length_reverse, List.drop_length_add_append]
    simp
  have hlength : (stem ++ '.' :: tail).length = stem.length + (tail.length + 1) := by simp
  have hlong : 0 < stem.length ∧ 0 < tail.length :=
    ⟨List.length_pos_iff.2 hstem, List.length_pos_iff.2 htail⟩
  have hpoints : stem ++ '.' :: tail ≠ ['.', '.'] := fun h => by
    have htwo := congrArg List.length h
    rw [hlength] at htwo
    have htwo : stem.length + (tail.length + 1) = 2 := htwo
    omega
  unfold extensionOf?
  simp only [htake, List.length_reverse, hdrop, List.reverse_reverse, hlength]
  rw [if_neg]
  simp only [Bool.or_eq_true, decide_eq_true_eq, not_or]
  exact ⟨⟨by omega, hstem⟩, hpoints⟩

/-- A name with an extension behind it has the extension. -/
theorem hasExtension_append (hname : name.toList ≠ []) (hslash : '/' ∉ name.toList)
    (hext : ext.toList ≠ []) (hpoint : '.' ∉ ext.toList) (hslash' : '/' ∉ ext.toList) :
    hasExtension (name ++ "." ++ ext) ext = true := by
  have hlist : (name ++ "." ++ ext).toList = name.toList ++ '.' :: ext.toList := by simp
  have hwhole : splitAt '/' (name ++ "." ++ ext).toList = [name.toList ++ '.' :: ext.toList] := by
    rw [hlist]
    exact splitAt_of_not_mem (by simp [hslash, hslash'])
  have hfile : fileName (name ++ "." ++ ext) = name.toList ++ '.' :: ext.toList := by
    rw [fileName, hwhole, List.filter_cons_of_pos]
    · rfl
    · have hpoint : name.toList ++ '.' :: ext.toList ≠ ['.'] := fun h => by
        have hone := congrArg List.length h
        rw [List.length_append, List.length_cons] at hone
        have hone : name.toList.length + (ext.toList.length + 1) = 1 := hone
        exact hname (List.length_eq_zero_iff.1 (by omega))
      simp [hpoint]
  rw [hasExtension, hfile, extensionOf?_append hname hext hpoint, decide_eq_true_eq]

/-! ## Paths below a directory -/

/-- A name in a directory is put behind something that does not depend on it. -/
theorem join_eq_append (base : String) : ∃ before, ∀ name : String, '/' ∉ name.toList →
    join base name = before ++ name := by
  have hrelative : ∀ name : String, '/' ∉ name.toList → isAbsolute name = false := fun name h =>
    decide_eq_false fun hhead => h (List.mem_of_mem_head? (Option.mem_def.2 hhead))
  by_cases hbase : base = ""
  · exact ⟨"", fun name h => by simp [join, hbase]⟩
  by_cases hlast : base.toList.getLast? = some '/'
  · exact ⟨base, fun name h => by simp [join, hrelative name h, hbase, hlast]⟩
  · exact ⟨base ++ "/", fun name h => by simp [join, hrelative name h, hbase, hlast]⟩

/-- Paths in a directory are in the order of the names. -/
theorem join_lt (hname : '/' ∉ name.toList) (hother : '/' ∉ other.toList) (h : name < other) :
    join base name < join base other := by
  obtain ⟨before, hbefore⟩ := join_eq_append base
  rw [hbefore name hname, hbefore other hother, String.lt_iff, String.toList_append,
    String.toList_append]
  exact List.append_left_lt (String.lt_iff.1 h)

end FilePath

end Stepflow

/-!
## What becomes of a directory

Where the last name of a place is changed, the directory above it has one entry put in or taken out, and
making directories leaves the last one as it was, or makes it empty. Trees are alike if every place leads
to the same in both, up to the order in which directories list their entries; so what is in a directory
is known from its names and from what is found under them.
-/

namespace Stepflow.Files

variable {t t' u f : Files} {entries : List (String × Files)} {name other : String}
  {place rest : List String} {change : Option Files → Except Obstacle (Option Files)} {o : Obstacle}

/-! ### Entries -/

/-- The entries of a directory once an entry of a name is put in or taken out. -/
def setEntry (entries : List (String × Files)) (name : String) : Option Files → List (String × Files)
  | none => dropEntry entries name
  | some f => putEntry entries name f

/-- An entry of a name that was not there comes last. -/
theorem putEntry_of_none (h : entries.lookup name = none) :
    putEntry entries name f = entries ++ [(name, f)] := by
  rw [putEntry, h]
  rfl

theorem ne_of_lookup_eq_none {e : String × Files} (h : entries.lookup name = none) (he : e ∈ entries) :
    e.1 ≠ name := by
  have hne : (name == e.1) = false := by simpa using List.lookup_eq_none_iff.1 h e he
  exact Ne.symm (beq_eq_false_iff_ne.1 hne)

/-- An entry that is put in after another of its name takes its place. -/
theorem putEntry_putEntry (entries : List (String × Files)) (name : String) (f g : Files) :
    putEntry (putEntry entries name f) name g = putEntry entries name g := by
  have hsome : ((putEntry entries name f).lookup name).isSome := by simp
  rw [putEntry, if_pos hsome]
  cases hlookup : entries.lookup name with
  | some old =>
    have hold : (entries.lookup name).isSome := by rw [hlookup]; rfl
    rw [putEntry, if_pos hold, putEntry, if_pos hold, List.map_map]
    refine List.map_congr_left fun e _ => ?_
    by_cases he : e.1 = name <;> simp [he]
  | none =>
    have hother : entries.map (fun e => if e.1 = name then (name, g) else e) = entries :=
      (List.map_congr_left fun e he => if_neg (ne_of_lookup_eq_none hlookup he)).trans (List.map_id _)
    rw [putEntry_of_none hlookup, putEntry_of_none hlookup, List.map_append, hother]
    simp

/-- A new entry that is taken out leaves the others. -/
theorem dropEntry_putEntry (h : entries.lookup name = none) :
    dropEntry (putEntry entries name f) name = entries := by
  have hkept : entries.filter (fun e => e.1 ≠ name) = entries :=
    List.filter_eq_self.2 fun e he => decide_eq_true (ne_of_lookup_eq_none h he)
  rw [putEntry_of_none h, dropEntry, List.filter_append, hkept]
  simp

theorem mem_of_lookup (h : entries.lookup name = some f) : (name, f) ∈ entries := by
  obtain ⟨before, after, rfl, -⟩ := List.lookup_eq_some_iff.1 h
  exact List.mem_append_right _ List.mem_cons_self

/-- Where no name is repeated, every entry is the one that is found under its name. -/
theorem lookup_of_mem (hn : (entries.map Prod.fst).Nodup) (h : (name, f) ∈ entries) :
    entries.lookup name = some f := by
  induction entries with
  | nil => contradiction
  | cons e entries ih =>
    obtain ⟨k, g⟩ := e
    rw [List.map_cons, List.nodup_cons] at hn
    rw [List.lookup_cons]
    obtain heq | h := List.mem_cons.1 h
    · obtain ⟨rfl, rfl⟩ := Prod.mk.inj heq
      rw [beq_self_eq_true]
    · have hne : (name == k) = false := beq_eq_false_iff_ne.2 fun heq =>
        hn.1 (List.mem_map.2 ⟨(name, f), h, heq⟩)
      rw [hne]
      exact ih hn.2 h

/-- No name is repeated by putting an entry in. -/
theorem nodup_putEntry (h : (entries.map Prod.fst).Nodup) :
    ((putEntry entries name f).map Prod.fst).Nodup := by
  unfold putEntry
  split
  · have hnames : (entries.map fun e => if e.1 = name then (name, f) else e).map Prod.fst =
        entries.map Prod.fst := by
      rw [List.map_map]
      refine List.map_congr_left fun e _ => ?_
      by_cases he : e.1 = name <;> simp [he]
    rw [hnames]
    exact h
  · rename_i hnone
    rw [Bool.not_eq_true, Option.isSome_eq_false_iff, Option.isNone_iff_eq_none] at hnone
    rw [List.map_append]
    refine List.Nodup.append h (List.nodup_singleton _) fun k hk hk' => ?_
    obtain rfl := List.mem_singleton.1 hk'
    obtain ⟨⟨k, g⟩, he, rfl⟩ := List.mem_map.1 hk
    rw [lookup_of_mem h he] at hnone
    contradiction

/-- An entry that is put in has its name, all others were there. -/
theorem mem_putEntry {e : String × Files} (h : e ∈ putEntry entries name f) :
    e = (name, f) ∨ e ∈ entries := by
  unfold putEntry at h
  split at h
  · obtain ⟨d, hd, rfl⟩ := List.mem_map.1 h
    by_cases hname : d.1 = name
    · exact .inl (if_pos hname)
    · rw [if_neg hname]
      exact .inr hd
  · obtain h | h := List.mem_append.1 h
    · exact .inr h
    · exact .inl (List.mem_singleton.1 h)

/-! ### Changes in a directory -/

/-- What stands in a directory is found under its name. -/
theorem find_in_dir (hdir : t.find place = .ok (.dir entries)) (hlong : isLongName name = false) :
    t.find (place ++ [name]) = match entries.lookup name with
      | none => .error .missing
      | some f => .ok f := by
  rw [find_append, hdir]
  show (Files.dir entries).find [name] = _
  rw [find_dir hlong]
  cases entries.lookup name with
  | none => rfl
  | some f => exact find.eq_1 f

/-- What is found under a name in a directory is an entry of it. -/
theorem lookup_of_find (hdir : t.find place = .ok (.dir entries))
    (h : t.find (place ++ [name]) = .ok f) : isLongName name = false ∧ entries.lookup name = some f := by
  rw [find_append, hdir] at h
  have h : (Files.dir entries).find [name] = .ok f := h
  obtain ⟨es, below, heq, hlong, hbelow, hfind⟩ := find_cons_ok h
  injection heq with heq
  rw [find] at hfind
  injection hfind with hfind
  rw [heq, hbelow, hfind]
  exact ⟨hlong, rfl⟩

/-- **A change at a name** changes one entry of the directory above. -/
theorem find_update_dir (h : t.update change (place ++ [name]) = .ok t') : ∃ entries g,
    t.find place = .ok (.dir entries) ∧ isLongName name = false ∧
      change (entries.lookup name) = .ok g ∧ t'.find place = .ok (.dir (setEntry entries name g)) := by
  induction place generalizing t t' with
  | nil =>
    cases t with
    | file content => contradiction
    | dir entries =>
      rw [List.nil_append, update] at h
      split at h
      · contradiction
      · rename_i hlong
        have hlong := Bool.eq_false_iff.2 hlong
        split at h
        · contradiction
        · rename_i hchange
          injection h with h
          exact ⟨entries, none, find.eq_1 _, hlong, hchange, by rw [← h, find]; rfl⟩
        · rename_i g hchange
          injection h with h
          exact ⟨entries, some g, find.eq_1 _, hlong, hchange, by rw [← h, find]; rfl⟩
  | cons first place ih =>
    obtain ⟨entries, entries', rfl, rfl, hlong, -, -, hbelow⟩ := update_cons h
    obtain ⟨below, changed, hlookup, hchanged, hlookup'⟩ := hbelow (by simp)
    obtain ⟨es, g, hdir, hname, hchange, hdir'⟩ := ih hchanged
    refine ⟨es, g, ?_, hname, hchange, ?_⟩
    · rw [find_dir hlong, hlookup]
      exact hdir
    · rw [find_dir hlong, hlookup']
      exact hdir'

/-- **A change that an entry allows** can be made. -/
theorem update_ok {g : Option Files} (hdir : t.find place = .ok (.dir entries))
    (hlong : isLongName name = false) (hchange : change (entries.lookup name) = .ok g) :
    ∃ t', t.update change (place ++ [name]) = .ok t' := by
  induction place generalizing t with
  | nil =>
    rw [find] at hdir
    injection hdir with hdir
    subst hdir
    rw [List.nil_append, update, hlong, if_neg Bool.false_ne_true, hchange]
    cases g <;> exact ⟨_, rfl⟩
  | cons first place ih =>
    obtain ⟨es, below, rfl, hfirst, hbelow, hdir⟩ := find_cons_ok hdir
    obtain ⟨changed, hchanged⟩ := ih hdir
    rw [List.cons_append, update_below hfirst hbelow, hchanged]
    exact ⟨_, rfl⟩

/-- One that it does not allow fails as it says. -/
theorem update_error (hdir : t.find place = .ok (.dir entries)) (hlong : isLongName name = false)
    (hchange : change (entries.lookup name) = .error o) :
    t.update change (place ++ [name]) = .error o := by
  induction place generalizing t with
  | nil =>
    rw [find] at hdir
    injection hdir with hdir
    subst hdir
    rw [List.nil_append, update, hlong, if_neg Bool.false_ne_true, hchange]
  | cons first place ih =>
    obtain ⟨es, below, rfl, hfirst, hbelow, hdir⟩ := find_cons_ok hdir
    rw [List.cons_append, update_below hfirst hbelow, ih hdir]
    rfl

/-- None is made at a name that is too long. -/
theorem update_long (hdir : t.find place = .ok (.dir entries)) (hlong : isLongName name = true) :
    t.update change (place ++ [name]) = .error .longName := by
  induction place generalizing t with
  | nil =>
    rw [find] at hdir
    injection hdir with hdir
    subst hdir
    rw [List.nil_append, update, if_pos hlong]
  | cons first place ih =>
    obtain ⟨es, below, rfl, hfirst, hbelow, hdir⟩ := find_cons_ok hdir
    rw [List.cons_append, update_below hfirst hbelow, ih hdir]
    rfl

/-- **A file that is written** becomes an entry of the directory above. -/
theorem find_writeFile_dir {content : Content} (h : t.writeFile (place ++ [name]) content = .ok t') :
    ∃ entries, t.find place = .ok (.dir entries) ∧ isLongName name = false ∧
      t'.find place = .ok (.dir (putEntry entries name (.file content))) := by
  obtain ⟨entries, g, hdir, hlong, hchange, hdir'⟩ := find_update_dir h
  have hg : g = some (.file content) := by
    split at hchange
    · contradiction
    · injection hchange with hchange
      exact hchange.symm
  rw [hg] at hdir'
  exact ⟨entries, hdir, hlong, hdir'⟩

/-- It is found. -/
theorem find_writeFile {content : Content} (h : t.writeFile (place ++ [name]) content = .ok t') :
    t'.find (place ++ [name]) = .ok (.file content) := by
  obtain ⟨entries, -, hlong, hdir⟩ := find_writeFile_dir h
  rw [find_in_dir hdir hlong, lookup_putEntry_self]

/-- **A file can be written** in a directory where nothing has its name. -/
theorem writeFile_ok {content : Content} (hdir : t.find place = .ok (.dir entries))
    (hlong : isLongName name = false) (hfresh : entries.lookup name = none) :
    ∃ t', t.writeFile (place ++ [name]) content = .ok t' :=
  update_ok (g := some (.file content)) hdir hlong (by rw [hfresh])

/-! ### Making directories -/

/-- **A directory that was made** has the entries it had, or none if it was not there. -/
theorem find_makeDirs_self (h : t.makeDirs place = .ok t') :
    (∃ entries, t.find place = .ok (.dir entries) ∧ t'.find place = .ok (.dir entries)) ∨
      (t.find place = .error .missing ∧ t'.find place = .ok .empty) := by
  induction place generalizing t t' with
  | nil =>
    cases t with
    | file content => contradiction
    | dir entries =>
      rw [makeDirs] at h
      injection h with h
      exact .inl ⟨entries, find.eq_1 _, by rw [← h, find]⟩
  | cons first place ih =>
    obtain ⟨entries, entries', made, rfl, rfl, hlong, -, hmade, hlookup⟩ := makeDirs_cons h
    rw [find_dir hlong, find_dir hlong, hlookup]
    dsimp only
    cases hbelow : entries.lookup first with
    | some below =>
      rw [hbelow] at hmade
      exact ih hmade
    -- what was missing was made from an empty directory, so the last one is empty
    | none =>
      rw [hbelow] at hmade
      refine .inr ⟨rfl, ?_⟩
      obtain ⟨es, hempty, hfound⟩ | ⟨-, hfound⟩ := ih hmade
      · cases place with
        | nil =>
          rw [find, Option.getD_none] at hempty
          injection hempty with hempty
          rw [hfound, hempty]
        | cons next place => exact absurd hempty (find_empty_ne_ok _)
      · exact hfound

/-- A directory can be made in one that is there, if no file stands in its place. -/
theorem makeDirs_ok (hdir : t.find place = .ok (.dir entries)) (hlong : isLongName name = false)
    (hfree : ∀ content, entries.lookup name ≠ some (.file content)) :
    ∃ t', t.makeDirs (place ++ [name]) = .ok t' := by
  induction place generalizing t with
  | nil =>
    rw [find] at hdir
    injection hdir with hdir
    subst hdir
    rw [List.nil_append, makeDirs, hlong, if_neg Bool.false_ne_true]
    cases hlookup : entries.lookup name with
    | none => exact ⟨_, rfl⟩
    | some f =>
      cases f with
      | file content => exact absurd hlookup (hfree content)
      | dir es => exact ⟨_, rfl⟩
  | cons first place ih =>
    obtain ⟨es, below, rfl, hfirst, hbelow, hdir⟩ := find_cons_ok hdir
    obtain ⟨made, hmade⟩ := ih hdir
    rw [List.cons_append, makeDirs, hfirst, if_neg Bool.false_ne_true, hbelow, Option.getD_some, hmade]
    exact ⟨_, rfl⟩

/-- **In a directory that is there** a directory is made without a change at any other name. -/
theorem find_makeDirs_eq (hdir : t.find place = .ok (.dir entries)) (hne : name ≠ other)
    (h : t.makeDirs (place ++ [name]) = .ok t') :
    t'.find (place ++ other :: rest) = t.find (place ++ other :: rest) := by
  induction place generalizing t t' with
  | nil =>
    obtain ⟨es, es', made, rfl, rfl, -, hothers, -⟩ := makeDirs_cons h
    exact find_dir_congr (hothers other hne)
  | cons first place ih =>
    obtain ⟨es, below, rfl, hfirst, hbelow, hdir⟩ := find_cons_ok hdir
    obtain ⟨_, es', made, heq, rfl, -, -, hmade, hlookup⟩ := makeDirs_cons h
    injection heq with heq
    subst heq
    rw [hbelow, Option.getD_some] at hmade
    rw [List.cons_append, find_dir hfirst, find_dir hfirst, hbelow, hlookup]
    exact ih hdir hmade

/-! ### Trees that are alike -/

/-- **Two trees are alike**: every place leads to the same in both, but a directory may list its entries
in another order. -/
structure Alike (t u : Files) : Prop where
  /-- The same stands in the way. -/
  error : ∀ place o, t.find place = .error o ↔ u.find place = .error o
  /-- The same files are found. -/
  file : ∀ place content, t.find place = .ok (.file content) ↔ u.find place = .ok (.file content)
  /-- The same directories are found, with the same names in them. -/
  dir : ∀ place entries, t.find place = .ok (.dir entries) →
    ∃ listed, u.find place = .ok (.dir listed) ∧ (listed.map Prod.fst).Perm (entries.map Prod.fst)

theorem Alike.refl (t : Files) : t.Alike t :=
  ⟨fun _ _ => Iff.rfl, fun _ _ => Iff.rfl, fun _ entries h => ⟨entries, h, .refl _⟩⟩

theorem Alike.symm (h : t.Alike u) : u.Alike t := by
  refine ⟨fun place o => (h.error place o).symm, fun place content => (h.file place content).symm,
    fun place listed hlisted => ?_⟩
  cases hfind : t.find place with
  | error o =>
    rw [(h.error place o).1 hfind] at hlisted
    contradiction
  | ok f =>
    cases f with
    | file content =>
      rw [(h.file place content).1 hfind] at hlisted
      simp at hlisted
    | dir entries =>
      obtain ⟨listed', hlisted', hnames⟩ := h.dir place entries hfind
      rw [hlisted] at hlisted'
      obtain rfl : listed = listed' := by simpa using hlisted'
      exact ⟨entries, rfl, hnames.symm⟩

/-- A file that is listed in one of them is listed in the other. -/
theorem Alike.mem_of_mem {listed : List (String × Files)} {content : Content} (h : t.Alike u)
    (hdir : t.find place = .ok (.dir entries)) (hlisted : u.find place = .ok (.dir listed))
    (hn : (entries.map Prod.fst).Nodup) (hlong : isLongName name = false)
    (hmem : (name, .file content) ∈ entries) : (name, .file content) ∈ listed := by
  have hfile : t.find (place ++ [name]) = .ok (.file content) := by
    rw [find_in_dir hdir hlong, lookup_of_mem hn hmem]
  exact mem_of_lookup (lookup_of_find hlisted ((h.file _ _).1 hfile)).2

/-- **A directory of files** is known from the names in it and from what is found under them. -/
theorem perm_of_names {files : List (String × Files)} (hdir : t.find place = .ok (.dir entries))
    (hnames : (entries.map Prod.fst).Perm (files.map Prod.fst)) (hn : (files.map Prod.fst).Nodup)
    (hfiles : ∀ e ∈ files, t.find (place ++ [e.1]) = .ok e.2) : entries.Perm files := by
  have hentries := hnames.nodup_iff.2 hn
  have hsub : files ⊆ entries := fun e he =>
    mem_of_lookup (lookup_of_find hdir (hfiles e he)).2
  have hlength : entries.length = files.length := by simpa using hnames.length_eq
  have hsubperm : files.Subperm entries := List.subperm_of_subset (List.Nodup.of_map Prod.fst hn) hsub
  exact (hsubperm.perm_of_length_le (Nat.le_of_eq hlength)).symm

end Stepflow.Files
