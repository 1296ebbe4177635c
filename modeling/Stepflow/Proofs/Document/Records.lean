import Stepflow.Proofs.Document.Writing

/-!
# Records read from values

What a reader of records finds in a value: under each of its names what stands there in the object, or at
the place of the name if the value is a list. Entries of other names do not matter
(`collectFields_filter`), so giving one of them another value changes nothing (`record?_update`).
-/

namespace Stepflow

/-! ## Another value under a name -/

namespace Table

variable {β : Type} {t : Table β} {name other : String} {v : β}

/-- The table with another value in every entry of a name. -/
def update (t : Table β) (name : String) (v : β) : Table β :=
  t.map fun e => if e.1 = name then (name, v) else e

theorem get?_update_self (h : name ∈ t.names) : (t.update name v).get? name = some v := by
  induction t with
  | nil => contradiction
  | cons e rest ih =>
    obtain ⟨k, w⟩ := e
    rw [update, List.map_cons]
    dsimp only
    split
    · exact if_pos rfl
    · next hk =>
      rw [get?, if_neg hk]
      exact ih ((List.mem_cons.1 h).resolve_left fun heq => hk heq.symm)

theorem get?_update_of_ne (h : name ≠ other) : (t.update name v).get? other = t.get? other := by
  induction t with
  | nil => rfl
  | cons e rest ih =>
    obtain ⟨k, w⟩ := e
    rw [update, List.map_cons]
    dsimp only
    split
    · next hk => rw [get?, get?, if_neg h, if_neg (hk ▸ h), ← ih, update]
    · rw [get?, get?, ← ih, update]

/-- A condition on names that the name fails does not see its value. -/
theorem filter_update {p : String → Bool} (h : p name = false) :
    (t.update name v).filter (fun e => p e.1) = t.filter fun e => p e.1 := by
  induction t with
  | nil => rfl
  | cons e rest ih =>
    rw [update, List.map_cons]
    split
    · next hk =>
      rw [List.filter_cons_of_neg (by simp [h]), List.filter_cons_of_neg (by simp [hk, h])]
      exact ih
    · rw [List.filter_cons, List.filter_cons]
      exact ite_congr rfl (fun _ => congrArg (e :: ·) ih) fun _ => ih

theorem mem_names_of_get? (h : t.get? name = some v) : name ∈ t.names :=
  List.mem_map_of_mem (mem_of_get? h)

end Table

/-! ## Places in a value -/

namespace Value

/-- The part of a value that is the field of this name of a record, with the way to it: the field of an
object, or the member of a list at the place of the name. -/
def part? (names : List String) (name : String) : Value → Option (Segment × Value)
  | .obj o => (Table.get? o name).map (.field name, ·)
  | .arr vs => vs[names.idxOf name]?.map (.index (names.idxOf name), ·)
  | _ => none

theorem part?_obj {names : List String} {o : Fields} {name : String} {v : Value}
    (h : Table.get? o name = some v) : (Value.obj o).part? names name = some (.field name, v) := by
  rw [part?, h, Option.map_some]

theorem depth_lt_of_get? {o : Fields} {name : String} {v : Value} (h : Table.get? o name = some v) :
    v.depth < (Value.obj o).depth := depth_lt_of_mem_fields (Table.mem_of_get? h)

theorem depth_lt_of_getElem? {vs : List Value} {n : Nat} {v : Value} (h : vs[n]? = some v) :
    v.depth < (Value.arr vs).depth := depth_lt_of_mem (List.mem_of_getElem? h)

theorem depth_lt_of_part? {names : List String} {name : String} {v u : Value} {s : Segment}
    (h : v.part? names name = some (s, u)) : u.depth < v.depth := by
  cases v with
  | obj o =>
    obtain ⟨w, hw, heq⟩ := Option.map_eq_some_iff.1 h
    obtain ⟨-, rfl⟩ := Prod.mk.inj heq
    exact depth_lt_of_get? hw
  | arr vs =>
    obtain ⟨w, hw, heq⟩ := Option.map_eq_some_iff.1 h
    obtain ⟨-, rfl⟩ := Prod.mk.inj heq
    exact depth_lt_of_getElem? hw
  | _ => contradiction

end Value

/-! ## What a reader finds -/

namespace Item

variable {names : List String} {name : String} {o : Fields} {v : Value}
  {found : List (String × Item)} {α : Type} {read : Item → Option α}

theorem fieldName?_text (names : List String) (k : String) :
    fieldName? names (.datum (.text k)) = some (if k ∈ names then some k else none) := by
  simp [fieldName?, text?]

/-- The entries of an object are collected from the last to the first. -/
theorem collectFields_ofFields_cons (names : List String) (k : String) (v : Value) (o : Fields) :
    collectFields names (ofFields ((k, v) :: o)) =
      (collectFields names (ofFields o)).bind fun found =>
        if k ∈ names then
          if (found.lookup k).isSome then none else some ((k, ofValue v) :: found)
        else some found := by
  rw [ofFields, collectFields, fieldName?_text]
  split <;> rfl

/-- **Entries of other names** do not matter. -/
theorem collectFields_filter {p : String → Bool} (h : ∀ name ∈ names, p name = true) (o : Fields) :
    collectFields names (ofFields (o.filter fun e => p e.1)) = collectFields names (ofFields o) := by
  induction o with
  | nil => rfl
  | cons e rest ih =>
    obtain ⟨k, v⟩ := e
    rw [List.filter_cons]
    split
    · rw [collectFields_ofFields_cons, collectFields_ofFields_cons, ih]
    · next hk =>
      have hother : k ∉ names := fun hmem => hk (h k hmem)
      rw [ih, collectFields_ofFields_cons]
      simp only [if_neg hother, Option.bind_fun_some]

theorem collectFields_update (h : name ∉ names) (o : Fields) (v : Value) :
    collectFields names (ofFields (Table.update o name v)) = collectFields names (ofFields o) := by
  have hall : ∀ k ∈ names, names.contains k = true := fun _ => List.contains_iff_mem.2
  have hnone : names.contains name = false := by simpa using h
  rw [← collectFields_filter hall (Table.update o name v), Table.filter_update hnone,
    collectFields_filter hall]

/-- **What is found** under a name is what stands there. -/
theorem lookup_of_collectFields (h : collectFields names (ofFields o) = some found)
    (hname : name ∈ names) : found.lookup name = (Table.get? o name).map ofValue := by
  induction o generalizing found with
  | nil =>
    obtain rfl := Option.some.inj h
    rfl
  | cons e rest ih =>
    obtain ⟨k, v⟩ := e
    rw [collectFields_ofFields_cons] at h
    obtain ⟨others, hothers, h⟩ := Option.bind_eq_some_iff.1 h
    have hrest := ih hothers
    rw [Table.get?]
    split at h
    · split at h
      · contradiction
      · obtain rfl := Option.some.inj h
        rw [Table.lookup_cons, hrest]
        by_cases hk : k = name
        · rw [if_pos hk, if_pos hk.symm, Option.map_some]
        · rw [if_neg hk, if_neg (Ne.symm hk)]
    · next hother =>
      obtain rfl := Option.some.inj h
      rw [hrest, if_neg]
      rintro rfl
      exact hother hname

theorem ofValues_eq (vs : List Value) : ofValues vs = vs.map ofValue := by
  induction vs with
  | nil => rfl
  | cons v rest ih => rw [ofValues, ih, List.map_cons]

theorem record?_obj (names : List String) (o : Fields) :
    (ofValue (.obj o)).record? names = collectFields names (ofFields o) := by
  rw [ofValue]
  rfl

/-- The members of a list are found at the places of their names. -/
theorem lookup_zip {names : List String} {name : String} (h : name ∈ names) (vs : List Value) :
    (names.zip (vs.map ofValue)).lookup name = vs[names.idxOf name]?.map ofValue := by
  induction names generalizing vs with
  | nil => contradiction
  | cons first rest ih =>
    cases vs with
    | nil => rfl
    | cons v vs =>
      rw [List.map_cons, List.zip_cons_cons, Table.lookup_cons]
      by_cases hfirst : name = first
      · rw [if_pos hfirst, hfirst, List.idxOf_cons_self]
        rfl
      · rw [if_neg hfirst, List.idxOf_cons_ne _ (Ne.symm hfirst), List.getElem?_cons_succ]
        exact ih ((List.mem_cons.1 h).resolve_left hfirst) vs

/-- **A record** has under each of its names what stands at its place in the value. -/
theorem lookup_of_record? (h : (ofValue v).record? names = some found) (hname : name ∈ names) :
    found.lookup name = (v.part? names name).map fun p => ofValue p.2 := by
  cases v with
  | obj o =>
    rw [record?_obj] at h
    rw [lookup_of_collectFields h hname, Value.part?, Option.map_map]
    rfl
  | arr vs =>
    have hzip : (if (ofValues vs).length ≤ names.length then some (names.zip (ofValues vs)) else none) =
        some found := h
    split at hzip
    · obtain rfl := Option.some.inj hzip
      rw [ofValues_eq, Value.part?, Option.map_map, lookup_zip hname]
      rfl
    · contradiction
  | _ => contradiction

/-- A name that a record does not have may have any value. -/
theorem record?_update (h : name ∉ names) (o : Fields) (v : Value) :
    (ofValue (.obj (Table.update o name v))).record? names = (ofValue (.obj o)).record? names := by
  rw [record?_obj, record?_obj, collectFields_update h]

theorem list?_arr (read : Item → Option α) (vs : List Value) :
    (ofValue (.arr vs)).list? read = (vs.map ofValue).mapM read := by
  rw [ofValue, ofValues_eq]
  rfl

/-- **A list** is read member by member. -/
theorem list?_ofValue {as : List α} (h : (ofValue v).list? read = some as) :
    ∃ vs, v = .arr vs ∧ ∀ u ∈ vs, (read (ofValue u)).isSome := by
  cases v with
  | arr vs =>
    refine ⟨vs, rfl, ?_⟩
    rw [list?_arr] at h
    induction vs generalizing as with
    | nil => exact List.forall_mem_nil _
    | cons v vs ih =>
      rw [List.map_cons, List.mapM_cons] at h
      obtain ⟨a, ha, h⟩ := Option.bind_eq_some_iff.1 h
      obtain ⟨rest, hrest, -⟩ := Option.bind_eq_some_iff.1 h
      exact List.forall_mem_cons.2 ⟨by rw [ha]; rfl, ih hrest⟩
  | _ => contradiction

/-- **A table** is read entry by entry. -/
theorem table?_ofValue {t : Table α} (h : (ofValue (.obj o)).table? read = some t) :
    ∀ e ∈ o, (read (ofValue e.2)).isSome := by
  rw [ofValue] at h
  obtain ⟨pairs, hpairs, -⟩ := Option.bind_eq_some_iff.1 h
  clear h
  induction o generalizing pairs with
  | nil => exact List.forall_mem_nil _
  | cons e rest ih =>
    obtain ⟨k, v⟩ := e
    rw [ofFields, List.mapM_cons] at hpairs
    obtain ⟨p, hp, hpairs⟩ := Option.bind_eq_some_iff.1 hpairs
    obtain ⟨others, hothers, -⟩ := Option.bind_eq_some_iff.1 hpairs
    obtain ⟨name, -, hp⟩ := Option.bind_eq_some_iff.1 hp
    obtain ⟨a, ha, -⟩ := Option.bind_eq_some_iff.1 hp
    exact List.forall_mem_cons.2 ⟨Option.isSome_of_eq_some ha, ih others hothers⟩

/-- Readers that agree on the members of a list read it alike. -/
theorem list?_congr {f g : Item → Option α} (h : ∀ u, u.depth < v.depth → f (ofValue u) = g (ofValue u)) :
    (ofValue v).list? f = (ofValue v).list? g := by
  cases v with
  | arr vs =>
    have hall : ∀ u ∈ vs, f (ofValue u) = g (ofValue u) := fun u hu => h u (Value.depth_lt_of_mem hu)
    clear h
    rw [list?_arr, list?_arr]
    induction vs with
    | nil => rfl
    | cons v vs ih =>
      obtain ⟨hv, hrest⟩ := List.forall_mem_cons.1 hall
      rw [List.map_cons, List.mapM_cons, List.mapM_cons, hv, ih hrest]
  | _ => rfl

end Item

end Stepflow
