import Stepflow.Files.Tree

/-!
# What changes in a tree of files

A change at one place is seen at that place and below it, and nowhere else: `find_update_of_ne` says so
of whatever `update` does, and `find_makeDirs_of_ne` of making directories, which may make those that
the two places have in common. Making directories loses no file, and where a directory was removed
nothing is found. Every change goes down one name at a time, so it is enough to know what becomes of a
directory whose entry of a name is changed (`update_cons`, `makeDirs_cons`).
-/

namespace Stepflow.Files

variable {t t' below f : Files} {entries : List (String × Files)} {name other : String}
  {place rest rest' : List String} {change : Option Files → Except Obstacle (Option Files)}

/-! ## Directories -/

theorem lookup_map_of_ne (hne : name ≠ other) :
    (entries.map fun e => if e.1 = name then (name, f) else e).lookup other = entries.lookup other := by
  have hother : (other == name) = false := by simpa using Ne.symm hne
  induction entries with
  | nil => rfl
  | cons e entries ih =>
    obtain ⟨k, g⟩ := e
    by_cases hk : k = name
    · subst hk
      rw [List.map_cons, if_pos rfl, List.lookup_cons, List.lookup_cons, hother]
      exact ih
    · rw [List.map_cons, if_neg hk, List.lookup_cons, List.lookup_cons, ih]

theorem lookup_map_self (h : (entries.lookup name).isSome) :
    (entries.map fun e => if e.1 = name then (name, f) else e).lookup name = some f := by
  induction entries with
  | nil => contradiction
  | cons e entries ih =>
    obtain ⟨k, g⟩ := e
    by_cases hk : k = name
    · simp [hk]
    · have hne : (name == k) = false := by simpa using Ne.symm hk
      rw [List.lookup_cons, hne] at h
      rw [List.map_cons, if_neg hk, List.lookup_cons, hne]
      exact ih h

/-- An entry that was put in is found. -/
@[simp] theorem lookup_putEntry_self : (putEntry entries name f).lookup name = some f := by
  unfold putEntry
  split
  · exact lookup_map_self ‹_›
  · rename_i h
    rw [Bool.not_eq_true, Option.isSome_eq_false_iff, Option.isNone_iff_eq_none] at h
    rw [List.lookup_append, h]
    simp

theorem lookup_putEntry_of_ne (hne : name ≠ other) :
    (putEntry entries name f).lookup other = entries.lookup other := by
  unfold putEntry
  split
  · exact lookup_map_of_ne hne
  · have hother : (other == name) = false := by simpa using Ne.symm hne
    rw [List.lookup_append, List.lookup_cons, hother, List.lookup_nil, Option.or_none]

/-- One that was taken out is not. -/
@[simp] theorem lookup_dropEntry_self : (dropEntry entries name).lookup name = none := by
  rw [List.lookup_eq_none_iff]
  intro e he
  have hname : e.1 ≠ name := by simpa using (List.mem_filter.1 he).2
  simpa using Ne.symm hname

theorem lookup_dropEntry_of_ne (hne : name ≠ other) :
    (dropEntry entries name).lookup other = entries.lookup other := by
  induction entries with
  | nil => rfl
  | cons e entries ih =>
    obtain ⟨k, g⟩ := e
    rw [dropEntry] at ih
    by_cases hk : k = name
    · have hother : (other == k) = false := by simpa [hk] using Ne.symm hne
      rw [dropEntry, List.filter_cons_of_neg (by simpa using hk), List.lookup_cons, hother, ih]
    · rw [dropEntry, List.filter_cons_of_pos (by simpa using hk), List.lookup_cons, List.lookup_cons, ih]

/-! ## Finding -/

/-- What is found below a name in a directory. -/
theorem find_dir (hlong : isLongName name = false) : (Files.dir entries).find (name :: rest) =
    match entries.lookup name with
    | none => .error .missing
    | some below => below.find rest := by
  rw [find]
  exact if_neg (ne_true_of_eq_false hlong)

/-- What is below a place is found from what stands there. -/
theorem find_append (t : Files) (place rest : List String) :
    t.find (place ++ rest) = (t.find place).bind fun f => f.find rest := by
  induction place generalizing t with
  | nil =>
    rw [find]
    rfl
  | cons name place ih =>
    cases t with
    | file content =>
      rw [List.cons_append, find, find]
      rfl
    | dir entries =>
      rw [List.cons_append, find, find]
      split
      · rfl
      · cases entries.lookup name with
        | none => rfl
        | some below => exact ih below

/-- Nothing is found in an empty directory. -/
theorem find_empty_ne_ok (f : Files) : empty.find (name :: rest) ≠ .ok f := by
  rw [empty, find]
  split <;> simp

/-- What is found below a name is found in the entry of the name. -/
theorem find_cons_ok (h : t.find (name :: rest) = .ok f) : ∃ entries below, t = .dir entries ∧
    isLongName name = false ∧ entries.lookup name = some below ∧ below.find rest = .ok f := by
  cases t with
  | file content =>
    rw [find] at h
    contradiction
  | dir entries =>
    rw [find] at h
    split at h
    · contradiction
    · rename_i hlong
      split at h
      · contradiction
      · rename_i below hbelow
        exact ⟨entries, below, rfl, Bool.eq_false_iff.2 hlong, hbelow, h⟩

theorem readDir_eq_ok : t.readDir place = .ok entries ↔ t.find place = .ok (.dir entries) := by
  unfold readDir
  cases t.find place with
  | error o => simp
  | ok f => cases f <;> simp

/-! ## Changing -/

/-- **A change below a name** leaves the entries of other names as they are. The entry of the name is
changed, or becomes what the change says if the place ends there. -/
theorem update_cons (h : t.update change (name :: rest) = .ok t') : ∃ entries entries',
    t = .dir entries ∧ t' = .dir entries' ∧ isLongName name = false ∧
      (∀ other, name ≠ other → entries'.lookup other = entries.lookup other) ∧
      (rest = [] → ∃ g, change (entries.lookup name) = .ok g ∧ entries'.lookup name = g) ∧
      (rest ≠ [] → ∃ below changed, entries.lookup name = some below ∧
        below.update change rest = .ok changed ∧ entries'.lookup name = some changed) := by
  cases t with
  | file content => cases rest <;> contradiction
  | dir entries =>
    cases rest with
    | nil =>
      rw [update] at h
      split at h
      · contradiction
      · rename_i hlong
        have hlong := Bool.eq_false_iff.2 hlong
        split at h
        · contradiction
        · rename_i hchange
          injection h with h
          exact ⟨entries, _, rfl, h.symm, hlong, fun _ => lookup_dropEntry_of_ne,
            fun _ => ⟨none, hchange, lookup_dropEntry_self⟩, fun hne => absurd rfl hne⟩
        · rename_i g hchange
          injection h with h
          exact ⟨entries, _, rfl, h.symm, hlong, fun _ => lookup_putEntry_of_ne,
            fun _ => ⟨some g, hchange, lookup_putEntry_self⟩, fun hne => absurd rfl hne⟩
    | cons next rest =>
      rw [update] at h
      split at h
      · contradiction
      · rename_i hlong
        split at h
        · contradiction
        · rename_i below hbelow
          split at h
          · contradiction
          · rename_i changed hchanged
            injection h with h
            exact ⟨entries, _, rfl, h.symm, Bool.eq_false_iff.2 hlong, fun _ => lookup_putEntry_of_ne,
              nofun, fun _ => ⟨below, changed, hbelow, hchanged, lookup_putEntry_self⟩⟩

/-- **Making directories below a name** changes the entry of the name alone. -/
theorem makeDirs_cons (h : t.makeDirs (name :: rest) = .ok t') : ∃ entries entries' made,
    t = .dir entries ∧ t' = .dir entries' ∧ isLongName name = false ∧
      (∀ other, name ≠ other → entries'.lookup other = entries.lookup other) ∧
      ((entries.lookup name).getD .empty).makeDirs rest = .ok made ∧
      entries'.lookup name = some made := by
  cases t with
  | file content => contradiction
  | dir entries =>
    rw [makeDirs] at h
    split at h
    · contradiction
    · rename_i hlong
      split at h
      · contradiction
      · rename_i made hmade
        injection h with h
        exact ⟨entries, _, made, rfl, h.symm, Bool.eq_false_iff.2 hlong,
          fun _ => lookup_putEntry_of_ne, hmade, lookup_putEntry_self⟩

/-- A change further below a name that is there is made in its entry. -/
theorem update_below (hlong : isLongName name = false) (hbelow : entries.lookup name = some below) :
    (Files.dir entries).update change (name :: (place ++ [other])) =
      (below.update change (place ++ [other])).map fun f => .dir (putEntry entries name f) := by
  obtain ⟨next, more, hmore⟩ : ∃ next more, place ++ [other] = next :: more := by
    cases place <;> exact ⟨_, _, rfl⟩
  rw [hmore, update, hlong, if_neg Bool.false_ne_true, hbelow]
  dsimp only
  cases update change below (next :: more) <;> rfl

/-- Entries that are looked up alike are found alike. -/
theorem find_dir_congr {entries' : List (String × Files)}
    (h : entries'.lookup name = entries.lookup name) :
    (Files.dir entries').find (name :: rest) = (Files.dir entries).find (name :: rest) := by
  rw [find, find, h]

/-- **A change at one place is not seen at another** that is not below it. -/
theorem find_update_of_ne (hne : name ≠ other) (h : t.update change (place ++ name :: rest) = .ok t') :
    t'.find (place ++ other :: rest') = t.find (place ++ other :: rest') := by
  induction place generalizing t t' with
  | nil =>
    obtain ⟨entries, entries', rfl, rfl, -, hothers, -⟩ := update_cons h
    exact find_dir_congr (hothers other hne)
  | cons first place ih =>
    obtain ⟨entries, entries', rfl, rfl, hlong, -, -, hbelow⟩ := update_cons h
    obtain ⟨below, changed, hlookup, hchanged, hlookup'⟩ := hbelow (by simp)
    rw [List.cons_append, find_dir hlong, find_dir hlong, hlookup, hlookup']
    exact ih hchanged

/-- **Nor is the making of directories.** -/
theorem find_makeDirs_of_ne (hne : name ≠ other) (h : t.makeDirs (place ++ name :: rest) = .ok t')
    (f : Files) :
    t'.find (place ++ other :: rest') = .ok f ↔ t.find (place ++ other :: rest') = .ok f := by
  induction place generalizing t t' with
  | nil =>
    obtain ⟨entries, entries', made, rfl, rfl, -, hothers, -⟩ := makeDirs_cons h
    rw [List.nil_append, find_dir_congr (hothers other hne)]
  | cons first place ih =>
    obtain ⟨entries, entries', made, rfl, rfl, hlong, -, hmade, hlookup⟩ := makeDirs_cons h
    rw [List.cons_append, find_dir hlong, find_dir hlong, hlookup]
    dsimp only
    rw [ih hmade]
    cases entries.lookup first with
    | some below => rfl
    -- what was not there was empty, and there is still nothing at the other place
    | none =>
      refine ⟨fun hf => ?_, nofun⟩
      cases place <;> exact absurd hf (find_empty_ne_ok f)

/-- **Making directories loses no file.** -/
theorem find_makeDirs {content : Content} (h : t.makeDirs place = .ok t')
    (hf : t.find rest = .ok (.file content)) : t'.find rest = .ok (.file content) := by
  induction place generalizing t t' rest with
  | nil =>
    cases t with
    | file content => contradiction
    | dir entries =>
      rw [makeDirs] at h
      injection h with h
      rw [← h]
      exact hf
  | cons name place ih =>
    obtain ⟨entries, entries', made, rfl, rfl, hlong, hothers, hmade, hlookup⟩ := makeDirs_cons h
    cases rest with
    | nil =>
      rw [find] at hf
      injection hf with hf
      contradiction
    | cons other rest =>
      by_cases hne : name = other
      · subst hne
        obtain ⟨_, below, hdir, -, hbelow, hf⟩ := find_cons_ok hf
        injection hdir with hdir
        subst hdir
        rw [hbelow] at hmade
        rw [find_dir hlong, hlookup]
        exact ih hmade hf
      · rw [find_dir_congr (hothers other hne)]
        exact hf

/-! ## Removing -/

/-- **Where a directory was removed** nothing is found, nor below it. -/
theorem find_removeDir (h : t.removeDir (place ++ [name]) = .ok t') (f : Files) :
    t'.find (place ++ name :: rest) ≠ .ok f := by
  unfold removeDir at h
  induction place generalizing t t' with
  | nil =>
    obtain ⟨entries, entries', rfl, rfl, hlong, -, hend, -⟩ := update_cons h
    obtain ⟨g, hchange, hlookup⟩ := hend rfl
    have hnone : g = none := by
      split at hchange
      · contradiction
      · contradiction
      · injection hchange with hchange
        exact hchange.symm
    rw [List.nil_append, find_dir hlong, hlookup, hnone]
    nofun
  | cons first place ih =>
    obtain ⟨entries, entries', rfl, rfl, hlong, -, -, hbelow⟩ := update_cons h
    obtain ⟨below, changed, -, hchanged, hlookup⟩ := hbelow (by simp)
    rw [List.cons_append, find_dir hlong, hlookup]
    exact ih hchanged

/-- **A directory that is there can be removed.** -/
theorem removeDir_ok (h : t.find (place ++ [name]) = .ok (.dir entries)) :
    ∃ t', t.removeDir (place ++ [name]) = .ok t' := by
  unfold removeDir
  induction place generalizing t with
  | nil =>
    obtain ⟨es, below, rfl, hlong, hbelow, hdir⟩ := find_cons_ok h
    rw [find] at hdir
    injection hdir with hdir
    subst hdir
    rw [List.nil_append, update, hlong, if_neg Bool.false_ne_true, hbelow]
    exact ⟨_, rfl⟩
  | cons first place ih =>
    obtain ⟨es, below, rfl, hlong, hbelow, hdir⟩ := find_cons_ok h
    obtain ⟨changed, hchanged⟩ := ih hdir
    rw [List.cons_append, update_below hlong hbelow, hchanged]
    exact ⟨_, rfl⟩

end Stepflow.Files
