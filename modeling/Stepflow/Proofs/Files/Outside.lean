import Stepflow.Files.Disk
import Stepflow.Proofs.Files.Directory
import Stepflow.Proofs.Files.Tree
import Stepflow.Proofs.Script.Asking

/-!
# What is left alone outside a directory

A path with a name put behind it leads one step further down than the path alone, wherever that leads
(`names_join`), as long as the name is an ordinary one.

`SameOutside` says of two trees that they differ at a place and below it alone, but for the directories
on the way to the place, which may have been made. A request that names paths in a directory changes
nothing outside it (`perform_sameOutside`), and so does a program that makes no other requests
(`DiskScript.perform_sameOutside`).
-/

namespace Stepflow

/-! ## Pieces of a path -/

theorem Text.splitAt_ne_nil (sep : Char) (cs : List Char) : splitAt sep cs ≠ [] := by
  cases cs with
  | nil => simp [splitAt]
  | cons c rest =>
    rw [splitAt]
    split
    · simp
    · split <;> simp

/-- A text with a separator in it is cut there. -/
theorem Text.splitAt_append_cons (sep : Char) (before after : List Char) :
    splitAt sep (before ++ sep :: after) = splitAt sep before ++ splitAt sep after := by
  induction before with
  | nil => simp [splitAt]
  | cons c before ih =>
    rw [List.cons_append, splitAt, splitAt, ih]
    by_cases hc : c = sep
    · rw [if_pos hc, if_pos hc, List.cons_append]
    · rw [if_neg hc, if_neg hc]
      cases hbefore : splitAt sep before with
      | nil => exact absurd hbefore (splitAt_ne_nil sep before)
      | cons piece pieces => rfl

namespace FilePath

open Text

variable {name other base : String} {workingDirectory place : List String}

/-! ## Ordinary names -/

theorem isName_iff : isName name = true ↔
    name ≠ "" ∧ name ≠ "." ∧ name ≠ ".." ∧ '/' ∉ name.toList ∧ '\x00' ∉ name.toList := by
  simp [isName, and_assoc]

theorem isAbsolute_of_isName (h : isName name = true) : isAbsolute name = false := by
  obtain ⟨-, -, -, hslash, -⟩ := isName_iff.1 h
  exact decide_eq_false fun hhead => hslash (List.mem_of_mem_head? (Option.mem_def.2 hhead))

/-- **An ordinary name leads one step down.** -/
theorem enter_of_isName (h : isName name = true) : enter place name.toList = place ++ [name] := by
  obtain ⟨hempty, hpoint, hpoints, -⟩ := isName_iff.1 h
  have hnil : name.toList ≠ [] := fun h => hempty (String.toList_inj.1 h)
  have hone : name.toList ≠ ['.'] := fun h => hpoint (String.toList_inj.1 h)
  have htwo : name.toList ≠ ['.', '.'] := fun h => hpoints (String.toList_inj.1 h)
  simp [enter, hnil, hone, htwo]

/-- A name is put behind a path with a solidus between the two, which may be there already. -/
theorem toList_join (h : isName name = true) (hbase : base ≠ "") : ∃ front,
    (base.toList = front ∨ base.toList = front ++ ['/']) ∧
      (join base name).toList = front ++ '/' :: name.toList := by
  have hrelative := isAbsolute_of_isName h
  by_cases hlast : base.toList.getLast? = some '/'
  · obtain ⟨front, hfront⟩ := List.getLast?_eq_some_iff.1 hlast
    exact ⟨front, .inr hfront, by simp [join, hrelative, hbase, hfront]⟩
  · exact ⟨base.toList, .inl rfl, by simp [join, hrelative, hbase, hlast]⟩

/-- **A name behind a path** leads one step down from where the path leads. -/
theorem names_join (h : isName name = true) :
    names workingDirectory (join base name) = names workingDirectory base ++ [name] := by
  obtain ⟨-, -, -, hslash, -⟩ := isName_iff.1 h
  by_cases hbase : base = ""
  · have hjoin : join base name = name := by simp [join, hbase]
    have hempty : names workingDirectory base = workingDirectory := by rw [hbase]; rfl
    rw [hjoin, hempty, names, isAbsolute_of_isName h, splitAt_of_not_mem hslash, List.foldl_cons,
      List.foldl_nil]
    exact enter_of_isName h
  obtain ⟨front, hfront, hjoin⟩ := toList_join h hbase
  have hnil : base.toList ≠ [] := fun h => hbase (String.toList_inj.1 h)
  have habsolute : isAbsolute (join base name) = isAbsolute base := by
    have hhead : (front ++ '/' :: name.toList).head? = base.toList.head? := by
      obtain heq | heq := hfront
      · rw [← heq, List.head?_append_of_ne_nil _ hnil]
      · cases front <;> simp [heq]
    rw [isAbsolute, isAbsolute, hjoin, hhead]
  -- a solidus at the end of a path leads nowhere else
  have hwhole : ∀ start, (splitAt '/' base.toList).foldl enter start =
      (splitAt '/' front).foldl enter start := by
    intro start
    obtain heq | heq := hfront
    · rw [heq]
    · rw [heq, splitAt_append_cons, List.foldl_append]
      rfl
  rw [names, names, habsolute, hwhole, hjoin, splitAt_append_cons, splitAt_of_not_mem hslash,
    List.foldl_append, List.foldl_cons, List.foldl_nil, enter_of_isName h]

/-- Different names lead to different paths. -/
theorem join_ne (hname : isName name = true) (hother : isName other = true) (hne : name ≠ other) :
    join base name ≠ join base other := by
  obtain ⟨before, hbefore⟩ := join_eq_append base
  rw [hbefore name (isName_iff.1 hname).2.2.2.1, hbefore other (isName_iff.1 hother).2.2.2.1]
  exact fun heq => hne ((String.append_right_inj before).1 heq)

end FilePath

/-! ## Trees -/

open FilePath

namespace Files

variable {t t' t'' : Files} {name other : String} {place p rest rest' : List String}
  {change : Option Files → Except Obstacle (Option Files)}

/-- **Two trees are the same outside a place.** -/
structure SameOutside (place : List String) (t t' : Files) : Prop where
  /-- The same files are found. -/
  file : ∀ p content, ¬ place <+: p → (t'.find p = .ok (.file content) ↔ t.find p = .ok (.file content))
  /-- A directory is still there, with the same in it under each name that does not lead to the place. -/
  dir : ∀ p entries, ¬ place <+: p → t.find p = .ok (.dir entries) →
    ∃ entries', t'.find p = .ok (.dir entries') ∧
      ∀ name, ¬ p ++ [name] <+: place → entries'.lookup name = entries.lookup name
  /-- A directory that was not there is on the way to the place. -/
  made : ∀ p entries, ¬ place <+: p → t'.find p = .ok (.dir entries) →
    (∃ entries, t.find p = .ok (.dir entries)) ∨ p <+: place

namespace SameOutside

theorem refl (place : List String) (t : Files) : SameOutside place t t :=
  ⟨fun _ _ _ => Iff.rfl, fun _ entries _ h => ⟨entries, h, fun _ _ => rfl⟩,
    fun _ entries _ h => .inl ⟨entries, h⟩⟩

theorem trans (h : SameOutside place t t') (h' : SameOutside place t' t'') :
    SameOutside place t t'' := by
  refine ⟨fun p content hp => (h'.file p content hp).trans (h.file p content hp),
    fun p entries hp hdir => ?_, fun p entries hp hdir => ?_⟩
  · obtain ⟨entries', hdir', hsame⟩ := h.dir p entries hp hdir
    obtain ⟨entries'', hdir'', hsame'⟩ := h'.dir p entries' hp hdir'
    exact ⟨entries'', hdir'', fun name hname => (hsame' name hname).trans (hsame name hname)⟩
  · obtain ⟨entries', hdir'⟩ | hway := h'.made p entries hp hdir
    · exact h.made p entries' hp hdir'
    · exact .inr hway

/-- What is the same outside a place is the same outside one above it. -/
theorem mono (h : SameOutside (place ++ rest) t t') : SameOutside place t t' := by
  have hout : ∀ {p}, ¬ place <+: p → ¬ place ++ rest <+: p := fun hp hin =>
    hp ((List.prefix_append place rest).trans hin)
  refine ⟨fun p content hp => h.file p content (hout hp), fun p entries hp hdir => ?_,
    fun p entries hp hdir => ?_⟩
  · obtain ⟨entries', hdir', hsame⟩ := h.dir p entries (hout hp) hdir
    refine ⟨entries', hdir', fun name hname => hsame name fun hway => ?_⟩
    obtain hin | hin := List.prefix_or_prefix_of_prefix hway (List.prefix_append place rest)
    · exact hname hin
    · obtain heq | hin := List.prefix_concat_iff.1 hin
      · exact hname (heq ▸ List.prefix_rfl)
      · exact hp hin
  · refine (h.made p entries (hout hp) hdir).imp_right fun hway => ?_
    exact (List.prefix_or_prefix_of_prefix hway (List.prefix_append place rest)).resolve_right hp

end SameOutside

/-- A place is at or below another one, above it, or parts from it at some name. -/
theorem prefix_cases (place p : List String) : place <+: p ∨ (∃ name rest, place = p ++ name :: rest) ∨
    ∃ before name other rest rest', name ≠ other ∧ place = before ++ name :: rest ∧
      p = before ++ other :: rest' := by
  induction place generalizing p with
  | nil => exact .inl List.nil_prefix
  | cons name place ih =>
    cases p with
    | nil => exact .inr (.inl ⟨name, place, rfl⟩)
    | cons other p =>
      by_cases hne : name = other
      · subst hne
        obtain h | ⟨next, rest, rfl⟩ | ⟨before, x, y, rest, rest', hxy, rfl, rfl⟩ := ih p
        · exact .inl (List.cons_prefix_cons.2 ⟨rfl, h⟩)
        · exact .inr (.inl ⟨next, rest, rfl⟩)
        · exact .inr (.inr ⟨name :: before, x, y, rest, rest', hxy, rfl, rfl⟩)
      · exact .inr (.inr ⟨[], name, other, place, p, hne, rfl, rfl⟩)

/-! ## Changes -/

/-- A change below a directory leaves its entries of other names as they are. -/
theorem find_update_above (h : t.update change (p ++ name :: rest) = .ok t') : ∃ entries entries',
    t.find p = .ok (.dir entries) ∧ t'.find p = .ok (.dir entries') ∧
      ∀ other, name ≠ other → entries'.lookup other = entries.lookup other := by
  induction p generalizing t t' with
  | nil =>
    obtain ⟨entries, entries', rfl, rfl, -, hothers, -⟩ := update_cons h
    exact ⟨entries, entries', find.eq_1 _, find.eq_1 _, hothers⟩
  | cons first p ih =>
    obtain ⟨entries, entries', rfl, rfl, hlong, -, -, hbelow⟩ := update_cons h
    obtain ⟨below, changed, hlookup, hchanged, hlookup'⟩ := hbelow (by simp)
    rw [find_dir hlong, find_dir hlong, hlookup, hlookup']
    exact ih hchanged

/-- So does the making of directories, if it does not make that one first. -/
theorem find_makeDirs_above (h : t.makeDirs (p ++ name :: rest) = .ok t') : ∃ entries',
    t'.find p = .ok (.dir entries') ∧ ((∀ f, t.find p ≠ .ok f) ∨ ∃ entries,
      t.find p = .ok (.dir entries) ∧
        ∀ other, name ≠ other → entries'.lookup other = entries.lookup other) := by
  induction p generalizing t t' with
  | nil =>
    obtain ⟨entries, entries', made, rfl, rfl, -, hothers, -⟩ := makeDirs_cons h
    exact ⟨entries', find.eq_1 _, .inr ⟨entries, find.eq_1 _, hothers⟩⟩
  | cons first p ih =>
    obtain ⟨entries, entries', made, rfl, rfl, hlong, -, hmade, hlookup⟩ := makeDirs_cons h
    obtain ⟨found, hfound, hold⟩ := ih hmade
    rw [find_dir hlong, find_dir hlong, hlookup]
    refine ⟨found, hfound, ?_⟩
    cases hbelow : entries.lookup first with
    | none => exact .inl fun f => by simp
    | some below =>
      rw [hbelow] at hold
      exact hold

/-- **What is the same outside a place** is known from the directories above it and from the places that
part from it. -/
theorem SameOutside.of_parts
    (habove : ∀ p name rest, place = p ++ name :: rest → ∃ entries', t'.find p = .ok (.dir entries') ∧
      ((∀ f, t.find p ≠ .ok f) ∨ ∃ entries, t.find p = .ok (.dir entries) ∧
        ∀ other, name ≠ other → entries'.lookup other = entries.lookup other))
    (hapart : ∀ before name other rest rest' f, name ≠ other → place = before ++ name :: rest →
      (t'.find (before ++ other :: rest') = .ok f ↔ t.find (before ++ other :: rest') = .ok f)) :
    SameOutside place t t' := by
  -- another name in a directory above the place does not lead to the place
  have hother : ∀ {p name rest other}, place = p ++ name :: rest → ¬ p ++ [other] <+: place →
      name ≠ other := by
    rintro p name rest other rfl hway rfl
    exact hway (by simp)
  refine ⟨fun p content hp => ?_, fun p entries hp hdir => ?_, fun p entries hp hdir => ?_⟩
  · obtain hin | ⟨name, rest, hplace⟩ | ⟨before, name, other, rest, rest', hne, hplace, rfl⟩ :=
      prefix_cases place p
    · exact absurd hin hp
    · obtain ⟨entries', hdir', hold⟩ := habove p name rest hplace
      constructor
      · intro hfile
        simp [hdir'] at hfile
      · intro hfile
        obtain hnone | ⟨entries, hdir, -⟩ := hold
        · exact absurd hfile (hnone _)
        · simp [hdir] at hfile
    · exact hapart before name other rest rest' _ hne hplace
  · obtain hin | ⟨name, rest, hplace⟩ | ⟨before, name, other, rest, rest', hne, hplace, rfl⟩ :=
      prefix_cases place p
    · exact absurd hin hp
    · obtain ⟨entries', hdir', hnone | ⟨_, hdir₁, hsame⟩⟩ := habove p name rest hplace
      · exact absurd hdir (hnone _)
      · obtain rfl : _ = entries := by simpa [hdir₁] using hdir
        exact ⟨entries', hdir', fun x hx => hsame x (hother hplace hx)⟩
    · exact ⟨entries, (hapart before name other rest rest' _ hne hplace).2 hdir, fun _ _ => rfl⟩
  · obtain hin | ⟨name, rest, hplace⟩ | ⟨before, name, other, rest, rest', hne, hplace, rfl⟩ :=
      prefix_cases place p
    · exact absurd hin hp
    · exact .inr ⟨name :: rest, hplace.symm⟩
    · exact .inl ⟨entries, (hapart before name other rest rest' _ hne hplace).1 hdir⟩

/-- **A change at a place or below it** changes nothing outside. -/
theorem sameOutside_update (h : t.update change (place ++ rest) = .ok t') :
    SameOutside place t t' := by
  refine .of_parts (fun p name more hplace => ?_) fun before name other more more' f hne hplace => ?_
  · subst hplace
    rw [List.append_assoc, List.cons_append] at h
    obtain ⟨entries, entries', hdir, hdir', hsame⟩ := find_update_above h
    exact ⟨entries', hdir', .inr ⟨entries, hdir, hsame⟩⟩
  · subst hplace
    rw [List.append_assoc, List.cons_append] at h
    rw [find_update_of_ne hne h]

/-- **So does making a directory** at the place, but for those on the way to it. -/
theorem sameOutside_makeDirs (h : t.makeDirs place = .ok t') : SameOutside place t t' := by
  refine .of_parts (fun p name more hplace => ?_) fun before name other more more' f hne hplace => ?_
  · subst hplace
    exact find_makeDirs_above h
  · subst hplace
    exact find_makeDirs_of_ne hne h f

theorem SameOutside.changed {x : Except Obstacle Files} (h : ∀ t', x = .ok t' → SameOutside place t t') :
    SameOutside place t (t.changed x).2 := by
  cases x with
  | error o => exact .refl place t
  | ok t' => exact h t' rfl

end Files

/-! ## Requests -/

namespace DiskRequest

open Files

variable {r : DiskRequest} {dir path : String} {workingDirectory : List String}

/-- A path leads to an entry of a directory: it is the directory's with one ordinary name behind it. -/
def IsIn (dir path : String) : Prop := ∃ name, isName name = true ∧ path = join dir name

/-- **A request keeps to a directory**: directories that it names are this one, and files are in it. -/
def KeepsTo (dir : String) : DiskRequest → Prop
  | .makeDirs path | .removeDir path | .list path => path = dir
  | .write path _ | .removeFile path | .read path => IsIn dir path
  | .rename source target => IsIn dir source ∧ IsIn dir target

/-- Such a path leads one step down from the directory. -/
theorem IsIn.names_eq (h : IsIn dir path) (workingDirectory : List String) : ∃ name,
    isName name = true ∧ names workingDirectory path = names workingDirectory dir ++ [name] := by
  obtain ⟨name, hname, rfl⟩ := h
  exact ⟨name, hname, names_join hname⟩

/-- A change at a path in a directory changes nothing outside. -/
theorem IsIn.sameOutside_update {change : Option Files → Except Obstacle (Option Files)} {t t' : Files}
    (h : IsIn dir path) (ht : t.update change (names workingDirectory path) = .ok t') :
    SameOutside (names workingDirectory dir) t t' := by
  obtain ⟨name, -, hnames⟩ := h.names_eq workingDirectory
  rw [hnames] at ht
  exact Files.sameOutside_update ht

/-- **A request that keeps to a directory** changes nothing outside. -/
theorem perform_sameOutside (h : r.KeepsTo dir) (t : Files) :
    SameOutside (names workingDirectory dir) t (r.perform workingDirectory t).2 := by
  cases r with
  | makeDirs path =>
    obtain rfl : path = dir := h
    exact .changed fun t' => sameOutside_makeDirs
  | removeDir path =>
    obtain rfl : path = dir := h
    refine .changed fun t' hremoved => ?_
    rw [← List.append_nil (names workingDirectory path)] at hremoved
    exact sameOutside_update hremoved
  | write path text => exact .changed fun t' => IsIn.sameOutside_update h
  | removeFile path => exact .changed fun t' => IsIn.sameOutside_update h
  | rename source target =>
    refine .changed fun t' hrenamed => ?_
    obtain ⟨content, rest, -, hremoved, hwritten⟩ := renameFile_eq_ok.1 hrenamed
    exact (h.1.sameOutside_update hremoved).trans (h.2.sameOutside_update hwritten)
  | list path => exact .refl _ t
  | read path => exact .refl _ t

end DiskRequest

namespace DiskScript

open Files

variable {α : Type} {s : DiskScript α} {dir : String} {workingDirectory : List String} {t : Files}

/-- **What every request keeps** a program keeps. -/
theorem perform_keeps {P : Files → Prop} {p : DiskRequest → Prop} (hs : s.AsksOnly p)
    (hstep : ∀ r, p r → ∀ t, P t → P (r.perform workingDirectory t).2) (h : P t) :
    P (perform workingDirectory s t).2 := by
  induction s generalizing t with
  | done a => exact h
  | ask r next ih => exact ih _ (hs.2 _) (hstep r hs.1 t h)
  | poll deadline next ih => exact ih _ (hs _) h
  | pause next ih => exact ih hs h
  | sleep deadline next ih => exact ih _ (hs _) h

/-- **A program that keeps to a directory** changes nothing outside. -/
theorem perform_sameOutside (hs : s.AsksOnly (DiskRequest.KeepsTo dir)) :
    SameOutside (names workingDirectory dir) t (perform workingDirectory s t).2 :=
  perform_keeps hs (fun _ hr u hu => hu.trans (DiskRequest.perform_sameOutside hr u)) (.refl _ t)

end DiskScript

end Stepflow
